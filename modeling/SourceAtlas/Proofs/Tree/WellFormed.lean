import SourceAtlas.Proofs.Json.Canonical
import SourceAtlas.Tree.Document

/-! # Documents give well-formed trees

Every directory of a tree that was read lists its children, and what its nodes carry along is an
ordered map without the keys that have a meaning of their own. Each member taken in keeps this of
the draft, and normalizing adds the child lists that were left out. -/

namespace SourceAtlas

open Json (Members)

/-- What is carried along with a content block is an ordered map without a source text. -/
structure Content.WellFormed (c : Content) : Prop where
  unknown : ∀ m ∈ c.extra, m.1 ≠ "source"
  ordered : (Json.obj c.extra).IsCanonical

/-- What is carried along with a node is an ordered map without the keys of a node. -/
structure Entry.WellFormed (e : Entry) : Prop where
  unknown : ∀ m ∈ e.extra, m.1 ∉ Document.knownKeys
  ordered : (Json.obj e.extra).IsCanonical
  content : ∀ c, e.content = some c → c.WellFormed

/-- Every directory lists its children, and every node is well formed by itself. -/
structure Node.WellFormed (root : Node) : Prop where
  listed : ∀ n ∈ root.preorder, n.kind = .directory → n.listed.isSome
  entry : ∀ n ∈ root.preorder, n.entry.WellFormed

namespace Node

/-! ## Child lists of directories -/

mutual
theorem normalize_eq_self : ∀ {n : Node},
    (∀ m ∈ n.preorder, m.kind = .directory → m.listed.isSome) → n.normalize = n
  | .mk e none, h => by
    have hk : e.kind ≠ .directory := fun hk => by simpa [listed] using h _ List.mem_cons_self hk
    rw [normalize, if_neg hk]
  | .mk e (some cs), h => by
    rw [normalize, normalizeAll_eq_self fun m hm => h m (List.mem_cons_of_mem _ hm)]

theorem normalizeAll_eq_self : ∀ {ns : List Node},
    (∀ m ∈ preorderAll ns, m.kind = .directory → m.listed.isSome) → normalizeAll ns = ns
  | [], _ => rfl
  | n :: ns, h => by
    rw [preorderAll] at h
    rw [normalizeAll, normalize_eq_self fun m hm => h m (List.mem_append_left _ hm),
      normalizeAll_eq_self fun m hm => h m (List.mem_append_right _ hm)]
end

mutual
/-- Every directory has a child list then, and the entries are those from before. -/
theorem normalize_spec : ∀ {n m : Node}, m ∈ n.normalize.preorder →
    (m.kind = .directory → m.listed.isSome) ∧ ∃ o ∈ n.preorder, o.entry = m.entry
  | .mk e none, m, h => by
    rw [normalize] at h
    by_cases hk : e.kind = .directory
    · rw [if_pos hk, preorder, preorderAll, List.mem_singleton] at h
      subst h
      exact ⟨fun _ => rfl, _, List.mem_cons_self, rfl⟩
    · rw [if_neg hk, preorder, List.mem_singleton] at h
      subst h
      exact ⟨fun hd => absurd hd hk, _, List.mem_cons_self, rfl⟩
  | .mk e (some cs), m, h => by
    rw [normalize, preorder, List.mem_cons] at h
    rcases h with rfl | h
    · exact ⟨fun _ => rfl, _, List.mem_cons_self, rfl⟩
    · obtain ⟨hl, o, ho, he⟩ := normalizeAll_spec h
      exact ⟨hl, o, List.mem_cons_of_mem _ ho, he⟩

theorem normalizeAll_spec : ∀ {ns : List Node} {m : Node}, m ∈ preorderAll (normalizeAll ns) →
    (m.kind = .directory → m.listed.isSome) ∧ ∃ o ∈ preorderAll ns, o.entry = m.entry
  | [], m, h => by cases h
  | n :: ns, m, h => by
    rw [normalizeAll, preorderAll, List.mem_append] at h
    rcases h with h | h
    · obtain ⟨hl, o, ho, he⟩ := normalize_spec h
      exact ⟨hl, o, List.mem_append_left _ ho, he⟩
    · obtain ⟨hl, o, ho, he⟩ := normalizeAll_spec h
      exact ⟨hl, o, List.mem_append_right _ ho, he⟩
end

end Node
namespace Document

/-! ## What a member does to a draft -/

theorem bind_eq_ok {α β : Type} {x : Except Fault α} {f : α → Except Fault β} {b : β}
    (h : x >>= f = .ok b) : ∃ a, x = .ok a ∧ f a = .ok b := by
  cases x with
  | error e => cases h
  | ok a => exact ⟨a, rfl, h⟩

theorem isCanonical_insert {ms : Members} (h : (Json.obj ms).IsCanonical) (key : String) {v : Json}
    (hv : v.IsCanonical) : (Json.obj (ms.insert key v)).IsCanonical := by
  obtain ⟨ho, hm⟩ := Json.isCanonical_obj.mp h
  refine Json.isCanonical_obj.mpr ⟨ho.insert key v, ?_⟩
  intro m hmem
  rcases Members.mem_insert hmem with rfl | hmem
  · exact hv
  · exact hm m hmem

theorem isCanonical_empty : (Json.obj []).IsCanonical :=
  Json.isCanonical_obj.mpr ⟨.nil, by simp⟩

theorem contentMembers_wellFormed {ms : Members} : ∀ {seen : Bool} {acc c : Content},
    acc.WellFormed → contentMembers seen acc ms = .ok c → c.WellFormed := by
  induction ms with
  | nil =>
    intro seen acc c hacc h
    cases h
    exact hacc
  | cons m ms ih =>
    intro seen acc c hacc h
    obtain ⟨key, value⟩ := m
    rw [contentMembers] at h
    split at h
    · split at h
      · cases h
      · obtain ⟨source, _, h⟩ := bind_eq_ok h
        have hsource : Content.WellFormed { acc with source } := ⟨hacc.unknown, hacc.ordered⟩
        exact ih hsource h
    · next hkey =>
      have hextra : Content.WellFormed
          { acc with extra := acc.extra.insert key value.canonical } := by
        refine ⟨?_, isCanonical_insert hacc.ordered key (Json.canonical_isCanonical value)⟩
        intro m hm
        rcases Members.mem_insert hm with rfl | hm
        · exact hkey
        · exact hacc.unknown m hm
      exact ih hextra h

theorem optionalContent_wellFormed {v : Json} {content : Option Content}
    (h : optionalContent v = .ok content) : ∀ c, content = some c → c.WellFormed := by
  unfold optionalContent at h
  split at h
  · cases h
    intro c hc
    cases hc
  · next members =>
    cases hm : contentMembers false {} members with
    | error e => rw [hm] at h; cases h
    | ok c =>
      rw [hm] at h
      cases h
      rintro _ ⟨⟩
      exact contentMembers_wellFormed ⟨by simp, isCanonical_empty⟩ hm
  · cases h

/-- A draft from which only a node with well-formed entries can come. -/
structure Draft.WellFormed (d : Draft) : Prop where
  unknown : ∀ m ∈ d.extra, m.1 ∉ knownKeys
  ordered : (Json.obj d.extra).IsCanonical
  content : ∀ c, d.content = some c → c.WellFormed
  children : ∀ ns, d.children = some ns → ∀ n ∈ Node.preorderAll ns, n.entry.WellFormed

theorem Draft.wellFormed_empty : Draft.WellFormed {} :=
  ⟨by simp, isCanonical_empty, by simp, by simp⟩

theorem Draft.WellFormed.finish {d : Draft} (hd : d.WellFormed) {n : Node}
    (h : d.finish = .ok n) : ∀ m ∈ n.preorder, m.entry.WellFormed := by
  unfold Draft.finish at h
  split at h
  · next name kind _ _ =>
    cases h
    have he : Entry.WellFormed { name, kind, size := d.size, path := d.path,
                                 dependencies := d.dependencies, inputs := d.inputs,
                                 outputs := d.outputs, readme := d.readme, content := d.content,
                                 extra := d.extra } := ⟨hd.unknown, hd.ordered, hd.content⟩
    intro m hm
    cases hc : d.children with
    | none =>
      rw [hc, Node.preorder, List.mem_singleton] at hm
      subst hm
      exact he
    | some cs =>
      rw [hc, Node.preorder, List.mem_cons] at hm
      rcases hm with rfl | hm
      · exact he
      · exact hd.children cs hc m hm
  · cases h

theorem Draft.WellFormed.take {d d' : Draft} (hd : d.WellFormed) {key : String} {value : Json}
    (hc : key ≠ "children") (h : d.take key value = .ok d') : d'.WellFormed := by
  unfold Draft.take at h
  split at h
  case h_9 =>
    obtain ⟨content, hv, h⟩ := bind_eq_ok h
    cases h
    exact ⟨hd.unknown, hd.ordered, optionalContent_wellFormed hv, hd.children⟩
  case h_10 =>
    cases h
    refine ⟨?_, isCanonical_insert hd.ordered key (Json.canonical_isCanonical value), hd.content,
      hd.children⟩
    intro m hm
    rcases Members.mem_insert hm with rfl | hm
    · simp_all [knownKeys]
    · exact hd.unknown m hm
  all_goals
    obtain ⟨_, _, h⟩ := bind_eq_ok h
    cases h
    exact ⟨hd.unknown, hd.ordered, hd.content, hd.children⟩

mutual
theorem node_wellFormed : ∀ {v : Json} {n : Node}, node v = .ok n →
    ∀ m ∈ n.preorder, m.entry.WellFormed
  | .obj members, n, h => by
    rw [node] at h
    exact membersFrom_wellFormed Draft.wellFormed_empty h
  | .null, n, h | .bool _, n, h | .num _, n, h | .str _, n, h | .arr _, n, h => by
    rw [node] at h
    · cases h
    · simp

theorem membersFrom_wellFormed : ∀ {ms : List (String × Json)} {d : Draft} {n : Node},
    d.WellFormed → membersFrom d ms = .ok n → ∀ m ∈ n.preorder, m.entry.WellFormed
  | [], d, n, hd, h => by
    rw [membersFrom] at h
    exact hd.finish h
  | (key, value) :: ms, d, n, hd, h => by
    rw [membersFrom] at h
    split at h
    · cases h
    · have hseen :
          (if knownKeys.contains key then { d with seen := key :: d.seen } else d).WellFormed := by
        split
        · exact ⟨hd.unknown, hd.ordered, hd.content, hd.children⟩
        · exact hd
      revert h
      generalize (if knownKeys.contains key then { d with seen := key :: d.seen } else d) = d'
        at hseen
      intro h
      dsimp only at h
      split at h
      · split at h
        · next children hlist =>
          have hchildren : Draft.WellFormed { d' with children } :=
            ⟨hseen.unknown, hseen.ordered, hseen.content, childList_wellFormed hlist⟩
          exact membersFrom_wellFormed hchildren h
        · cases h
      · next hkey =>
        split at h
        · next d'' ht => exact membersFrom_wellFormed (hseen.take hkey ht) h
        · cases h

theorem childList_wellFormed : ∀ {v : Json} {children : Option (List Node)},
    childList v = .ok children →
      ∀ ns, children = some ns → ∀ m ∈ Node.preorderAll ns, m.entry.WellFormed
  | .null, children, h => by
    rw [childList] at h
    cases h
    intro ns hns
    cases hns
  | .arr items, children, h => by
    rw [childList] at h
    split at h
    · next ns hns =>
      cases h
      rintro _ ⟨⟩
      exact nodes_wellFormed hns
    · cases h
  | .bool _, children, h | .num _, children, h | .str _, children, h | .obj _, children, h => by
    rw [childList] at h
    · cases h
    · simp
    · simp

theorem nodes_wellFormed : ∀ {vs : List Json} {ns : List Node}, nodes vs = .ok ns →
    ∀ m ∈ Node.preorderAll ns, m.entry.WellFormed
  | [], ns, h => by
    rw [nodes] at h
    cases h
    intro m hm
    cases hm
  | v :: vs, ns, h => by
    rw [nodes] at h
    split at h
    · cases h
    · next n hn =>
      split at h
      · cases h
      · next rest hrest =>
        cases h
        intro m hm
        rcases List.mem_append.mp hm with hm | hm
        · exact node_wellFormed hn m hm
        · exact nodes_wellFormed hrest m hm
end

/-- Every tree that is read is well formed. -/
theorem parse_wellFormed {text : String} {t : Node} (h : parse text = .ok t) : t.WellFormed := by
  unfold parse at h
  split at h
  · cases h
  · next v _ =>
    cases hn : node v with
    | error e => rw [hn] at h; cases h
    | ok n =>
      rw [hn] at h
      cases h
      refine ⟨fun m hm => (Node.normalize_spec hm).1, fun m hm => ?_⟩
      obtain ⟨_, o, ho, he⟩ := Node.normalize_spec hm
      exact he ▸ node_wellFormed hn o ho

end Document
end SourceAtlas

import Mathlib.Data.String.Basic
import SourceAtlas.Json.Basic

/-! # Ordered members and the canonical form

A list of members that is ordered by key is a finite map: inserting keeps the order and changes the
value of one key only. The canonical form of a value has every object ordered, and a value in that
form is its own canonical form. -/

namespace SourceAtlas.Json

mutual
/-- A property of a value and of every value inside it. -/
def Each (p : Json → Prop) : Json → Prop
  | .arr items => p (.arr items) ∧ EachItem p items
  | .obj members => p (.obj members) ∧ EachMember p members
  | v => p v

def EachItem (p : Json → Prop) : List Json → Prop
  | [] => True
  | v :: vs => Each p v ∧ EachItem p vs

def EachMember (p : Json → Prop) : List (String × Json) → Prop
  | [] => True
  | (_, v) :: ms => Each p v ∧ EachMember p ms
end

theorem eachItem_iff {p : Json → Prop} {vs : List Json} :
    EachItem p vs ↔ ∀ v ∈ vs, Each p v := by
  induction vs with
  | nil => simp [EachItem]
  | cons v vs ih => simp [EachItem, ih]

theorem eachMember_iff {p : Json → Prop} {ms : List (String × Json)} :
    EachMember p ms ↔ ∀ m ∈ ms, Each p m.2 := by
  induction ms with
  | nil => simp [EachMember]
  | cons m ms ih => simp [EachMember, ih]

/-! ## Ordered members -/

namespace Members

/-- Ordered by key, no key twice. -/
def Ordered (ms : Members) : Prop := ms.Pairwise fun m n => m.1 < n.1

instance (ms : Members) : Decidable ms.Ordered :=
  inferInstanceAs (Decidable (List.Pairwise (fun m n => m.1 < n.1) ms))

theorem Ordered.nodup {ms : Members} (h : Ordered ms) : (ms.map Prod.fst).Nodup :=
  List.pairwise_map.mpr (h.imp fun hlt => ne_of_lt hlt)

theorem mem_insert {key : String} {value : Json} {ms : Members} {m : String × Json}
    (h : m ∈ insert key value ms) : m = (key, value) ∨ m ∈ ms := by
  induction ms with
  | nil => exact .inl (List.mem_singleton.mp h)
  | cons n ms ih =>
    rw [insert] at h
    split at h
    · exact List.mem_cons.mp h
    · split at h
      · rcases List.mem_cons.mp h with h | h
        · exact .inl h
        · exact .inr (List.mem_cons_of_mem n h)
      · rcases List.mem_cons.mp h with h | h
        · exact .inr (h ▸ List.mem_cons_self)
        · exact (ih h).imp_right (List.mem_cons_of_mem n)

theorem Ordered.insert {ms : Members} (h : Ordered ms) (key : String) (value : Json) :
    Ordered (ms.insert key value) := by
  induction ms with
  | nil => exact List.pairwise_singleton _ _
  | cons n ms ih =>
    obtain ⟨hn, hms⟩ := List.pairwise_cons.mp h
    rw [Members.insert]
    split
    · next hlt =>
      refine List.pairwise_cons.mpr ⟨?_, h⟩
      intro m hm
      rcases List.mem_cons.mp hm with rfl | hm
      · exact hlt
      · exact lt_trans hlt (hn m hm)
    · next hge =>
      split
      · next he =>
        subst he
        exact List.pairwise_cons.mpr ⟨hn, hms⟩
      · next hne =>
        refine List.pairwise_cons.mpr ⟨?_, ih hms⟩
        intro m hm
        rcases mem_insert hm with rfl | hm
        · exact lt_of_le_of_ne (not_lt.mp hge) (Ne.symm hne)
        · exact hn m hm

/-- A key beyond all others is put at the end. -/
theorem insert_last {ms : Members} {key : String} (h : ∀ m ∈ ms, m.1 < key) (value : Json) :
    insert key value ms = ms ++ [(key, value)] := by
  induction ms with
  | nil => rfl
  | cons n ms ih =>
    have hn : n.1 < key := h n List.mem_cons_self
    rw [insert, if_neg (not_lt.mpr hn.le), if_neg hn.ne',
      ih fun m hm => h m (List.mem_cons_of_mem n hm)]
    rfl

/-- Inserting ordered members one by one only appends them. -/
theorem foldl_insert {ms acc : Members} (h : Ordered (acc ++ ms)) :
    ms.foldl (fun acc (k, v) => insert k v acc) acc = acc ++ ms := by
  induction ms generalizing acc with
  | nil => simp
  | cons m ms ih =>
    obtain ⟨k, v⟩ := m
    have hlast : ∀ n ∈ acc, n.1 < k := fun n hn =>
      (List.pairwise_append.mp h).2.2 n hn (k, v) List.mem_cons_self
    have hrest := @ih (acc ++ [(k, v)]) (by simpa using h)
    rw [List.foldl_cons]
    simpa [insert_last hlast] using hrest

theorem ordered_eq {ms : Members} (h : Ordered ms) : ordered ms = ms :=
  @foldl_insert ms [] h

/-- What every insertion keeps holds after all of them. -/
theorem foldl_insert_ordered (ms : Members) {acc : Members} (h : Ordered acc) :
    Ordered (ms.foldl (fun acc (k, v) => insert k v acc) acc) := by
  induction ms generalizing acc with
  | nil => exact h
  | cons m ms ih => exact ih (h.insert m.1 m.2)

theorem mem_foldl_insert {ms acc : Members} {m : String × Json}
    (h : m ∈ ms.foldl (fun acc (k, v) => insert k v acc) acc) : m ∈ ms ∨ m ∈ acc := by
  induction ms generalizing acc with
  | nil => exact .inr h
  | cons n ms ih =>
    rcases ih h with h | h
    · exact .inl (List.mem_cons_of_mem n h)
    · rcases mem_insert h with h | h
      · exact .inl (h ▸ List.mem_cons_self)
      · exact .inr h

/-- A new key is put somewhere among the others. -/
theorem insert_perm {ms : Members} {key : String} (h : key ∉ ms.map Prod.fst) (value : Json) :
    (insert key value ms).Perm ((key, value) :: ms) := by
  induction ms with
  | nil => exact .refl _
  | cons n ms ih =>
    rw [List.map_cons, List.mem_cons, not_or] at h
    rw [insert]
    split
    · exact .refl _
    · rw [if_neg h.1]
      exact ((ih h.2).cons n).trans (.swap _ _ _)

theorem foldl_insert_perm {ms acc : Members} (h : ((acc ++ ms).map Prod.fst).Nodup) :
    (ms.foldl (fun acc (k, v) => insert k v acc) acc).Perm (acc ++ ms) := by
  induction ms generalizing acc with
  | nil => simp
  | cons m ms ih =>
    obtain ⟨k, v⟩ := m
    have hmid : (acc ++ (k, v) :: ms).Perm ((k, v) :: (acc ++ ms)) := List.perm_middle
    have hnew : k ∉ acc.map Prod.fst := by
      have hk := (List.nodup_cons.mp ((hmid.map Prod.fst).nodup h)).1
      exact fun hm => hk (by rw [List.map_append]; exact List.mem_append_left _ hm)
    have hins : (insert k v acc ++ ms).Perm (acc ++ (k, v) :: ms) :=
      ((insert_perm hnew v).append_right ms).trans hmid.symm
    exact (ih ((hins.map Prod.fst).nodup_iff.mpr h)).trans hins

/-- Members with distinct keys are only put in order. -/
theorem ordered_perm {ms : Members} (h : (ms.map Prod.fst).Nodup) : (ordered ms).Perm ms :=
  @foldl_insert_perm ms [] h

theorem ordered_ordered (ms : Members) : Ordered (ordered ms) := foldl_insert_ordered ms .nil

/-- The order in which members with distinct keys come does not matter. -/
theorem ordered_congr {ms ns : Members} (h : ms.Perm ns) (hn : (ms.map Prod.fst).Nodup) :
    ordered ms = ordered ns := by
  have hn' : (ns.map Prod.fst).Nodup := (h.map Prod.fst).nodup hn
  have hp : (ordered ms).Perm (ordered ns) :=
    (ordered_perm hn).trans (h.trans (ordered_perm hn').symm)
  refine hp.eq_of_pairwise ?_ (ordered_ordered ms) (ordered_ordered ns)
  intro a b _ _ hab hba
  exact absurd (lt_trans hab hba) (lt_irrefl _)

end Members

/-! ## The canonical form -/

/-- The members of every object are ordered. -/
def IsCanonical : Json → Prop := Each fun v => ∀ ms, v = .obj ms → Members.Ordered ms

theorem isCanonical_obj {ms : Members} :
    IsCanonical (.obj ms) ↔ ms.Ordered ∧ ∀ m ∈ ms, m.2.IsCanonical := by
  simp [IsCanonical, Each, eachMember_iff]

theorem isCanonical_arr {vs : List Json} : IsCanonical (.arr vs) ↔ ∀ v ∈ vs, v.IsCanonical := by
  simp [IsCanonical, Each, eachItem_iff]

theorem canonicalMembers_eq_map (ms : Members) :
    canonicalMembers ms = ms.map fun m => (m.1, m.2.canonical) := by
  induction ms with
  | nil => rfl
  | cons m ms ih => rw [canonicalMembers, ih, List.map_cons]

theorem canonicalMembers_keys (ms : Members) :
    (canonicalMembers ms).map Prod.fst = ms.map Prod.fst := by
  rw [canonicalMembers_eq_map, List.map_map]
  rfl

mutual
theorem canonical_isCanonical : ∀ v : Json, v.canonical.IsCanonical
  | .null | .bool _ | .num _ | .str _ => by simp [canonical, IsCanonical, Each]
  | .arr items => isCanonical_arr.mpr (canonicalItems_isCanonical items)
  | .obj members => isCanonical_obj.mpr ⟨Members.foldl_insert_ordered _ .nil, fun m hm => by
      rcases Members.mem_foldl_insert hm with hm | hm
      · exact canonicalMembers_isCanonical members m hm
      · cases hm⟩

theorem canonicalItems_isCanonical : ∀ vs : List Json, ∀ v ∈ canonicalItems vs, v.IsCanonical
  | [], v, hv => by cases hv
  | w :: vs, v, hv => by
    rcases List.mem_cons.mp hv with rfl | hv
    · exact canonical_isCanonical w
    · exact canonicalItems_isCanonical vs v hv

theorem canonicalMembers_isCanonical : ∀ ms : List (String × Json),
    ∀ m ∈ canonicalMembers ms, m.2.IsCanonical
  | [], m, hm => by cases hm
  | (k, v) :: ms, m, hm => by
    rcases List.mem_cons.mp hm with rfl | hm
    · exact canonical_isCanonical v
    · exact canonicalMembers_isCanonical ms m hm
end

mutual
/-- A value in canonical form is its own canonical form. -/
theorem canonical_eq_self : ∀ {v : Json}, v.IsCanonical → v.canonical = v
  | .null, _ | .bool _, _ | .num _, _ | .str _, _ => rfl
  | .arr items, h => by
    rw [canonical, canonicalItems_eq_self (isCanonical_arr.mp h)]
  | .obj members, h => by
    obtain ⟨ho, hm⟩ := isCanonical_obj.mp h
    rw [canonical, canonicalMembers_eq_self hm, Members.ordered_eq ho]

theorem canonicalItems_eq_self : ∀ {vs : List Json}, (∀ v ∈ vs, v.IsCanonical) →
    canonicalItems vs = vs
  | [], _ => rfl
  | v :: vs, h => by
    rw [canonicalItems, canonical_eq_self (h v List.mem_cons_self),
      canonicalItems_eq_self fun w hw => h w (List.mem_cons_of_mem v hw)]

theorem canonicalMembers_eq_self : ∀ {ms : List (String × Json)}, (∀ m ∈ ms, m.2.IsCanonical) →
    canonicalMembers ms = ms
  | [], _ => rfl
  | (k, v) :: ms, h => by
    rw [canonicalMembers, canonical_eq_self (h (k, v) List.mem_cons_self),
      canonicalMembers_eq_self fun m hm => h m (List.mem_cons_of_mem _ hm)]
end

end SourceAtlas.Json

import SourceAtlas.Proofs.Json.Canonical
import SourceAtlas.Tree.Document

/-! # Reading a node member by member

The members of a node may stand in any order. What reading makes of a list of members with distinct
keys is said field by field: a field is set by the member with its key wherever that stands, and
keeps its default where there is none. -/

namespace SourceAtlas.Document

open Json (Members)

/-- Takes in members that are only carried along. -/
def carry (acc ms : Members) : Members := ms.foldl (fun acc m => acc.insert m.1 m.2.canonical) acc

/-- Members in canonical form are carried along as they are. -/
theorem carry_eq {acc ms : Members} (ho : (acc ++ ms).Ordered) (hm : ∀ m ∈ ms, m.2.IsCanonical) :
    carry acc ms = acc ++ ms := by
  have hc : ms.foldl (fun acc m => acc.insert m.1 m.2.canonical) acc =
      ms.foldl (fun acc m => Members.insert m.1 m.2 acc) acc :=
    List.foldl_ext _ _ _ fun acc m hmem => by rw [Json.canonical_eq_self (hm m hmem)]
  rw [carry, hc, Members.foldl_insert ho]

/-! ## Content blocks -/

/-- Members without a source text are only carried along. -/
theorem contentMembers_carry (seen : Bool) {ms : Members} (h : ∀ m ∈ ms, m.1 ≠ "source")
    (acc : Content) :
    contentMembers seen acc ms = .ok { acc with extra := carry acc.extra ms } := by
  induction ms generalizing acc with
  | nil => rfl
  | cons m ms ih =>
    obtain ⟨k, v⟩ := m
    have hk : k ≠ "source" := h (k, v) List.mem_cons_self
    rw [contentMembers, if_neg hk, ih fun n hn => h n (List.mem_cons_of_mem _ hn)]
    rfl

/-! ## The fields of a node -/

variable (e : Entry) (cs : Option (List Node))

/-- The value of a member is read as what the node has for its key. -/
def Fits (m : String × Json) : Prop :=
  match m.1 with
  | "name" => text m.2 = .ok e.name
  | "type" => kind m.2 = .ok e.kind
  | "size" => optionalSize m.2 = .ok e.size
  | "path" => optionalText m.2 = .ok e.path
  | "children" => childList m.2 = .ok cs
  | "dependencies" => texts m.2 = .ok e.dependencies
  | "inputs" => texts m.2 = .ok e.inputs
  | "outputs" => texts m.2 = .ok e.outputs
  | "readme" => optionalText m.2 = .ok e.readme
  | "content" => optionalContent m.2 = .ok e.content
  | _ => True

/-- The draft with what the node has for the key of a member. -/
def settle (d : Draft) (m : String × Json) : Draft :=
  match m.1 with
  | "name" => { d with name := some e.name }
  | "type" => { d with kind := some e.kind }
  | "size" => { d with size := e.size }
  | "path" => { d with path := e.path }
  | "children" => { d with children := cs }
  | "dependencies" => { d with dependencies := e.dependencies }
  | "inputs" => { d with inputs := e.inputs }
  | "outputs" => { d with outputs := e.outputs }
  | "readme" => { d with readme := e.readme }
  | "content" => { d with content := e.content }
  | key => { d with extra := d.extra.insert key m.2.canonical }

/-- Each key sets one field and leaves the others as they are. -/
theorem settle_eq (d : Draft) (m : String × Json) : settle e cs d m =
    { seen := d.seen
      name := if m.1 = "name" then some e.name else d.name
      kind := if m.1 = "type" then some e.kind else d.kind
      size := if m.1 = "size" then e.size else d.size
      path := if m.1 = "path" then e.path else d.path
      children := if m.1 = "children" then cs else d.children
      dependencies := if m.1 = "dependencies" then e.dependencies else d.dependencies
      inputs := if m.1 = "inputs" then e.inputs else d.inputs
      outputs := if m.1 = "outputs" then e.outputs else d.outputs
      readme := if m.1 = "readme" then e.readme else d.readme
      content := if m.1 = "content" then e.content else d.content
      extra := if m.1 ∈ knownKeys then d.extra else d.extra.insert m.1 m.2.canonical } := by
  unfold settle
  split <;> simp_all [knownKeys]

theorem settle_seen (d : Draft) (seen : List String) (m : String × Json) :
    settle e cs { d with seen } m = { settle e cs d m with seen } := by
  rw [settle_eq, settle_eq]

/-- What was seen plays no part in the finished node. -/
theorem finish_settle_seen (ms : Members) (d : Draft) (seen : List String) :
    (ms.foldl (settle e cs) { d with seen }).finish = (ms.foldl (settle e cs) d).finish := by
  induction ms generalizing d with
  | nil => rfl
  | cons m ms ih => rw [List.foldl_cons, List.foldl_cons, settle_seen, ih]

variable {e cs}

theorem fits_unknown {m : String × Json} (h : m.1 ∉ knownKeys) : Fits e cs m := by
  unfold Fits
  split <;> simp_all [knownKeys]

theorem take_eq_settle {m : String × Json} (h : Fits e cs m) (hc : m.1 ≠ "children") (d : Draft) :
    d.take m.1 m.2 = .ok (settle e cs d m) := by
  obtain ⟨k, v⟩ := m
  unfold Fits at h
  unfold Draft.take settle
  split at h <;> simp_all

theorem childList_eq_settle {m : String × Json} (h : Fits e cs m) (hc : m.1 = "children")
    (d : Draft) : childList m.2 = .ok cs ∧ settle e cs d m = { d with children := cs } := by
  obtain ⟨k, v⟩ := m
  subst hc
  exact ⟨h, rfl⟩

/-- Reading takes the members one after another, each into its own field. -/
theorem membersFrom_eq : ∀ {ms : Members} (d : Draft), (ms.map Prod.fst).Nodup →
    (∀ m ∈ ms, m.1 ∉ d.seen) → (∀ m ∈ ms, Fits e cs m) →
      membersFrom d ms = (ms.foldl (settle e cs) d).finish
  | [], d, _, _, _ => by rw [membersFrom, List.foldl_nil]
  | (k, v) :: ms, d, hn, hs, hf => by
    obtain ⟨hk, hn⟩ := List.nodup_cons.mp hn
    have hfit := hf (k, v) List.mem_cons_self
    have hseen : d.seen.contains k = false := by simpa using hs (k, v) List.mem_cons_self
    -- whether the key is noted or not, the keys still to come are new
    obtain ⟨s, hd, hnew⟩ :
        ∃ s, (if knownKeys.contains k then { d with seen := k :: d.seen } else d) =
          { d with seen := s } ∧ ∀ m ∈ ms, m.1 ∉ s := by
      by_cases hkn : knownKeys.contains k
      · refine ⟨k :: d.seen, if_pos hkn, fun m hm => ?_⟩
        have hne : m.1 ≠ k := fun he => hk (List.mem_map.mpr ⟨m, hm, he⟩)
        simpa [hne] using hs m (List.mem_cons_of_mem _ hm)
      · exact ⟨d.seen, if_neg hkn, fun m hm => hs m (List.mem_cons_of_mem _ hm)⟩
    have hrest (d : Draft) (hd : d.seen = s) :
        membersFrom d ms = (ms.foldl (settle e cs) d).finish :=
      membersFrom_eq d hn (hd ▸ hnew) fun m hm => hf m (List.mem_cons_of_mem _ hm)
    rw [membersFrom, hseen, List.foldl_cons, ← finish_settle_seen e cs ms _ s, ← settle_seen]
    simp only [Bool.false_eq_true, if_false, hd]
    by_cases hc : k = "children"
    · obtain ⟨hlist, hset⟩ := childList_eq_settle hfit hc { d with seen := s }
      rw [if_pos hc, hlist, hset]
      exact hrest _ rfl
    · rw [if_neg hc, take_eq_settle hfit hc]
      exact hrest _ (by rw [settle_seen])

/-- A field that one key alone sets has been set iff that key was there. -/
theorem foldl_field {β : Type} {f : Draft → β} {key : String} {b : β}
    (h : ∀ d m, f (settle e cs d m) = if m.1 = key then b else f d) (ms : Members) (d : Draft) :
    f (ms.foldl (settle e cs) d) = if key ∈ ms.map Prod.fst then b else f d := by
  induction ms generalizing d with
  | nil => simp
  | cons m ms ih =>
    rw [List.foldl_cons, ih, h, List.map_cons]
    by_cases hk : m.1 = key
    · rw [if_pos hk, ite_self, if_pos (hk ▸ List.mem_cons_self)]
    · simp only [if_neg hk, List.mem_cons, Ne.symm hk, false_or]

theorem foldl_extra (ms : Members) (d : Draft) : (ms.foldl (settle e cs) d).extra =
    carry d.extra (ms.filter fun m => m.1 ∉ knownKeys) := by
  induction ms generalizing d with
  | nil => rfl
  | cons m ms ih =>
    rw [List.foldl_cons, ih, settle_eq]
    by_cases hk : m.1 ∈ knownKeys
    · rw [if_pos hk, List.filter_cons_of_neg (by simpa using hk)]
    · rw [if_neg hk, List.filter_cons_of_pos (by simpa using hk)]
      rfl

variable (e cs)

/-- The node has nothing for a key. -/
def Lacks (key : String) : Prop :=
  match key with
  | "size" => e.size = none
  | "path" => e.path = none
  | "children" => cs = none
  | "dependencies" => e.dependencies = []
  | "inputs" => e.inputs = []
  | "outputs" => e.outputs = []
  | "readme" => e.readme = none
  | "content" => e.content = none
  | _ => False

/-- The members describe the node, in whatever order they stand. -/
structure Describes (ms : Members) : Prop where
  nodup : (ms.map Prod.fst).Nodup
  fits : ∀ m ∈ ms, Fits e cs m
  lacks : ∀ key ∈ knownKeys, key ∉ ms.map Prod.fst → Lacks e cs key
  extra : carry [] (ms.filter fun m => m.1 ∉ knownKeys) = e.extra

variable {e cs}

/-- Members that describe a node are read as that node. -/
theorem node_describes {ms : Members} (h : Describes e cs ms) :
    node (.obj ms) = .ok (.mk e cs) := by
  obtain ⟨hn, hf, hl, hx⟩ := h
  rw [node, membersFrom_eq {} hn (by simp) hf]
  generalize hD : ms.foldl (settle e cs) {} = D
  -- a field is set by its key, or keeps a default that is what the node has
  have field {β : Type} {f : Draft → β} {key : String} {b : β}
      (hs : ∀ d m, f (settle e cs d m) = if m.1 = key then b else f d)
      (ha : key ∉ ms.map Prod.fst → f {} = b) : f D = b := by
    rw [← hD, foldl_field hs]
    split
    · rfl
    · next hk => exact ha hk
  have hname : D.name = some e.name :=
    field (fun d m => by rw [settle_eq]) fun hk => (hl "name" (by decide) hk).elim
  have hkind : D.kind = some e.kind :=
    field (fun d m => by rw [settle_eq]) fun hk => (hl "type" (by decide) hk).elim
  have hsize : D.size = e.size :=
    field (fun d m => by rw [settle_eq]) fun hk => (hl "size" (by decide) hk).symm
  have hpath : D.path = e.path :=
    field (fun d m => by rw [settle_eq]) fun hk => (hl "path" (by decide) hk).symm
  have hchildren : D.children = cs :=
    field (fun d m => by rw [settle_eq]) fun hk => (hl "children" (by decide) hk).symm
  have hdependencies : D.dependencies = e.dependencies :=
    field (fun d m => by rw [settle_eq]) fun hk => (hl "dependencies" (by decide) hk).symm
  have hinputs : D.inputs = e.inputs :=
    field (fun d m => by rw [settle_eq]) fun hk => (hl "inputs" (by decide) hk).symm
  have houtputs : D.outputs = e.outputs :=
    field (fun d m => by rw [settle_eq]) fun hk => (hl "outputs" (by decide) hk).symm
  have hreadme : D.readme = e.readme :=
    field (fun d m => by rw [settle_eq]) fun hk => (hl "readme" (by decide) hk).symm
  have hcontent : D.content = e.content :=
    field (fun d m => by rw [settle_eq]) fun hk => (hl "content" (by decide) hk).symm
  have hextra : D.extra = e.extra := by rw [← hD, foldl_extra]; exact hx
  rw [Draft.finish, hname, hkind, hsize, hpath, hchildren, hdependencies, hinputs, houtputs,
    hreadme, hcontent, hextra]

end SourceAtlas.Document

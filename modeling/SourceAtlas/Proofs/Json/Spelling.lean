import SourceAtlas.Proofs.Json.Canonical
import SourceAtlas.Proofs.Json.Token

/-! # Every spelling of a value reads back

A spelling of a value is its text with white space wherever JSON allows it between tokens. The
reader takes every spelling of a value back to that value, as long as the brackets nest no deeper
than it follows them. The compact and the indented text are two spellings, so both read back, and
nothing has to be proved twice. -/

namespace SourceAtlas.Json

mutual
/-- How deep the brackets of a value nest. -/
def depth : Json → Nat
  | .arr items => depthItems items + 1
  | .obj members => depthMembers members + 1
  | _ => 0

def depthItems : List Json → Nat
  | [] => 0
  | v :: vs => max (depth v) (depthItems vs)

def depthMembers : List (String × Json) → Nat
  | [] => 0
  | (_, v) :: ms => max (depth v) (depthMembers ms)
end

def Gap (g : List Char) : Prop := ∀ c ∈ g, isGap c = true

mutual
/-- A text that stands for a value. Of the numbers, only integers of 64 bits are spelled. -/
inductive Spells : Json → List Char → Prop
  | null : Spells .null ['n', 'u', 'l', 'l']
  | yes : Spells (.bool true) ['t', 'r', 'u', 'e']
  | no : Spells (.bool false) ['f', 'a', 'l', 's', 'e']
  | int {i : Int} : (Number.int i).IsWord → Spells (.num (.int i)) (toString i).toList
  | str {s : String} : Spells (.str s) (quoted s)
  | emptyArr {g : List Char} : Gap g → Spells (.arr []) ('[' :: (g ++ [']']))
  | arr {vs : List Json} {ts : List Char} : SpellsItems vs ts →
      Spells (.arr vs) ('[' :: (ts ++ [']']))
  | emptyObj {g : List Char} : Gap g → Spells (.obj []) ('\x7b' :: (g ++ ['\x7d']))
  | obj {ms : List (String × Json)} {ts : List Char} : SpellsMembers ms ts →
      Spells (.obj ms) ('\x7b' :: (ts ++ ['\x7d']))

/-- A text that stands for the items of an array, at least one. -/
inductive SpellsItems : List Json → List Char → Prop
  | last {v : Json} {g t g' : List Char} : Gap g → Spells v t → Gap g' →
      SpellsItems [v] (g ++ (t ++ g'))
  | more {v : Json} {vs : List Json} {g t g' ts : List Char} : Gap g → Spells v t → Gap g' →
      SpellsItems vs ts → SpellsItems (v :: vs) (g ++ (t ++ (g' ++ ',' :: ts)))

/-- A text that stands for the members of an object, at least one. -/
inductive SpellsMembers : List (String × Json) → List Char → Prop
  | last {k : String} {v : Json} {g g' t g'' : List Char} : Gap g → Gap g' → Spells v t → Gap g'' →
      SpellsMembers [(k, v)] (g ++ (quoted k ++ ':' :: (g' ++ (t ++ g''))))
  | more {k : String} {v : Json} {ms : List (String × Json)} {g g' t g'' ts : List Char} :
      Gap g → Gap g' → Spells v t → Gap g'' → SpellsMembers ms ts →
      SpellsMembers ((k, v) :: ms) (g ++ (quoted k ++ ':' :: (g' ++ (t ++ (g'' ++ ',' :: ts)))))
end

/-! ## White space -/

theorem skipGap_append {g : List Char} (hg : Gap g) (cs : List Char) :
    skipGap (g ++ cs) = skipGap cs := by
  rw [skipGap, skipGap, List.dropWhile_append_of_pos hg]

theorem skipGap_cons {c : Char} (hc : isGap c = false) (cs : List Char) :
    skipGap (c :: cs) = c :: cs := by
  rw [skipGap, List.dropWhile_cons_of_neg (by simp [hc])]

theorem skipGap_mark {g : List Char} (hg : Gap g) {c : Char} (hc : isGap c = false)
    (cs : List Char) :
    skipGap (g ++ c :: cs) = c :: cs := by
  rw [skipGap_append hg, skipGap_cons hc]

/-- White space and a mark that is no part of a number may follow a number. -/
theorem ends_gap {g : List Char} (hg : Gap g) {c : Char}
    (hc : c = ',' ∨ c = ']' ∨ c = '\x7d') (cs : List Char) : Ends (g ++ c :: cs) := by
  have hmark : ∀ x, (isGap x = true ∨ x = ',' ∨ x = ']' ∨ x = '\x7d') →
      digit? x = none ∧ x ≠ '.' ∧ x ≠ 'e' ∧ x ≠ 'E' := by
    intro x hx
    simp only [isGap, Bool.or_eq_true, beq_iff_eq] at hx
    rcases hx with (((rfl | rfl) | rfl) | rfl) | rfl | rfl | rfl <;> decide
  intro x xs h
  cases g with
  | nil =>
    obtain ⟨rfl, -⟩ := List.cons.inj h
    exact hmark c (.inr hc)
  | cons y ys =>
    obtain ⟨rfl, -⟩ := List.cons.inj h
    exact hmark y (.inl (hg y (by simp)))

theorem readValue_gap {g : List Char} (hg : Gap g) (fuel depth : Nat) (cs : List Char) :
    readValue fuel depth (g ++ cs) = readValue fuel depth cs := by
  cases fuel with
  | zero => rfl
  | succ fuel => simp only [readValue, skipGap_append hg]

theorem skipGap_skipGap (cs : List Char) : skipGap (skipGap cs) = skipGap cs := by
  induction cs with
  | nil => rfl
  | cons c cs ih =>
    by_cases hc : isGap c = true
    · rw [show skipGap (c :: cs) = skipGap cs from List.dropWhile_cons_of_pos hc, ih]
    · rw [skipGap_cons (by simpa using hc), skipGap_cons (by simpa using hc)]

theorem readItems_skipGap (fuel depth : Nat) (cs : List Char) :
    readItems fuel depth (skipGap cs) = readItems fuel depth cs := by
  have hv (fuel : Nat) : readValue fuel depth (skipGap cs) = readValue fuel depth cs := by
    cases fuel with
    | zero => rfl
    | succ fuel => simp only [readValue, skipGap_skipGap]
  cases fuel with
  | zero => rfl
  | succ fuel => simp only [readItems, hv]

theorem readMembers_skipGap (fuel depth : Nat) (cs : List Char) :
    readMembers fuel depth (skipGap cs) = readMembers fuel depth cs := by
  cases fuel with
  | zero => rfl
  | succ fuel => simp only [readMembers, skipGap_skipGap]

/-! ## What a spelling starts with -/

theorem toString_head (i : Int) : ∃ c cs, (toString i).toList = c :: cs ∧
    (c = '-' ∨ ∃ d, d < 10 ∧ c = Nat.digitChar d) := by
  rw [Int.toString_eq_repr, Int.repr_eq_if]
  split
  · obtain ⟨ds, he, hd, _, hne, _⟩ := toDigits_spec i.toNat
    obtain ⟨d, ds, rfl⟩ := List.exists_cons_of_ne_nil hne
    rw [Nat.toList_repr, he]
    exact ⟨_, _, rfl, .inr ⟨d, hd d (by simp), rfl⟩⟩
  · exact ⟨'-', _, by rw [String.toList_append]; rfl, .inl rfl⟩

theorem numeric_marks {c : Char} (h : c = '-' ∨ ∃ d, d < 10 ∧ c = Nat.digitChar d) :
    isGap c = false ∧ c ≠ ']' ∧ c ∉ ['n', 't', 'f', '"', '[', '\x7b'] := by
  have hdigit : ∀ d, d < 10 → isGap (Nat.digitChar d) = false ∧ Nat.digitChar d ≠ ']' ∧
      Nat.digitChar d ∉ ['n', 't', 'f', '"', '[', '\x7b'] := by decide
  rcases h with rfl | ⟨d, hd, rfl⟩
  · decide
  · exact hdigit d hd

/-- A spelling starts with a mark of its own, which no array takes for its end. -/
theorem Spells.head {v : Json} {t : List Char} (h : Spells v t) :
    ∃ c cs, t = c :: cs ∧ isGap c = false ∧ c ≠ ']' := by
  cases h with
  | @int i _ =>
    obtain ⟨c, cs, he, hc⟩ := toString_head i
    exact ⟨c, cs, he, (numeric_marks hc).1, (numeric_marks hc).2.1⟩
  | null | yes | no | str | emptyArr _ | arr _ | emptyObj _ | obj _ =>
    exact ⟨_, _, rfl, by decide, by decide⟩

theorem Spells.length_pos {v : Json} {t : List Char} (h : Spells v t) : 0 < t.length := by
  obtain ⟨c, cs, rfl, _⟩ := h.head
  simp

theorem SpellsItems.head {vs : List Json} {ts : List Char} (h : SpellsItems vs ts)
    (rest : List Char) : ∃ c cs, skipGap (ts ++ rest) = c :: cs ∧ c ≠ ']' := by
  cases h with
  | last hg hv _ | more hg hv _ _ =>
    obtain ⟨c, cs, rfl, hgap, hc⟩ := hv.head
    rw [List.append_assoc, skipGap_append hg, List.append_assoc, List.cons_append,
      skipGap_cons hgap]
    exact ⟨c, _, rfl, hc⟩

theorem SpellsMembers.head {ms : List (String × Json)} {ts : List Char}
    (h : SpellsMembers ms ts) (rest : List Char) : ∃ cs, skipGap (ts ++ rest) = '"' :: cs := by
  cases h with
  | last hg _ _ _ | more hg _ _ _ _ =>
    rw [List.append_assoc, skipGap_append hg, List.append_assoc, quoted, List.cons_append,
      skipGap_cons (by decide)]
    exact ⟨_, rfl⟩

/-! ## Reading -/

theorem readValue_number {c : Char} (hgap : isGap c = false)
    (hc : c ∉ ['n', 't', 'f', '"', '[', '\x7b']) (fuel depth : Nat) (cs : List Char) :
    readValue (fuel + 1) depth (c :: cs) =
      (readNumeral (c :: cs)).bind fun p => p.1.number?.bind fun v => some (.num v, p.2) := by
  rw [readValue, skipGap_cons hgap]
  split
  all_goals first
    | rfl
    | next h =>
      obtain ⟨rfl, -⟩ := List.cons.inj h
      exact absurd hc (by decide)

theorem readValue_string (fuel depth : Nat) (s : String) (rest : List Char) :
    readValue (fuel + 1) depth (quoted s ++ rest) = some (.str s, rest) := by
  rw [quoted, List.cons_append, List.append_assoc, List.singleton_append, readValue,
    skipGap_cons (by decide)]
  simp only [readString_written]
  rfl

theorem readValue_array {fuel depth : Nat} {cs rest : List Char} {c : Char} {tail : List Char}
    (hcs : skipGap cs = c :: tail) (hc : c ≠ ']') {vs : List Json}
    (h : readItems fuel depth cs = some (vs, rest)) :
    readValue (fuel + 1) (depth + 1) ('[' :: cs) = some (.arr vs, rest) := by
  rw [← readItems_skipGap, hcs] at h
  rw [readValue, skipGap_cons (by decide)]
  simp only [hcs]
  split
  · next he => exact absurd (List.cons.inj he).1 hc
  · rw [h]
    rfl

theorem readValue_object {fuel depth : Nat} {cs rest tail : List Char}
    (hcs : skipGap cs = '"' :: tail) {ms : List (String × Json)}
    (h : readMembers fuel depth cs = some (ms, rest)) :
    readValue (fuel + 1) (depth + 1) ('\x7b' :: cs) = some (.obj ms, rest) := by
  rw [← readMembers_skipGap, hcs] at h
  rw [readValue, skipGap_cons (by decide)]
  simp only [hcs]
  split
  · next he => exact absurd (List.cons.inj he).1 (by decide)
  · rw [h]
    rfl

mutual
/-- A spelling is read as its value, up to its end. -/
theorem Spells.read : ∀ {v : Json} {t : List Char}, Spells v t → ∀ {fuel d : Nat}
    {rest : List Char}, 2 * t.length ≤ fuel → v.depth ≤ d → Ends rest →
      readValue fuel d (t ++ rest) = some (v, rest)
  | v, t, h, 0, d, rest, hf, hd, hr => by
    have := h.length_pos
    omega
  | _, _, .null, fuel + 1, d, rest, hf, hd, hr => rfl
  | _, _, .yes, fuel + 1, d, rest, hf, hd, hr => rfl
  | _, _, .no, fuel + 1, d, rest, hf, hd, hr => rfl
  | _, _, .str, fuel + 1, d, rest, hf, hd, hr => readValue_string fuel d _ rest
  | _, _, .int (i := i) hi, fuel + 1, d, rest, hf, hd, hr => by
    obtain ⟨c, cs, he, hc⟩ := toString_head i
    obtain ⟨n, hn, hv⟩ := readNumeral_written hi hr
    obtain ⟨hgap, _, hmark⟩ := numeric_marks hc
    rw [he, List.cons_append] at hn ⊢
    rw [readValue_number hgap hmark, hn, Option.bind_some, hv, Option.bind_some]
  | _, _, .emptyArr hg, fuel + 1, d, rest, hf, hd, hr => by
    obtain ⟨d, rfl⟩ : ∃ d', d = d' + 1 := Nat.exists_eq_add_one.mpr (by rw [depth] at hd; omega)
    rw [List.cons_append, List.append_assoc, List.singleton_append, readValue,
      skipGap_cons (by decide)]
    simp only [skipGap_mark hg (by decide : isGap ']' = false)]
  | _, _, .arr h, fuel + 1, d, rest, hf, hd, hr => by
    obtain ⟨d, rfl⟩ : ∃ d', d = d' + 1 := Nat.exists_eq_add_one.mpr (by rw [depth] at hd; omega)
    obtain ⟨c, cs, hcs, hc⟩ := h.head (']' :: rest)
    rw [List.cons_append, List.append_assoc, List.singleton_append]
    refine readValue_array hcs hc (h.read ?_ ?_)
    · simp only [List.length_cons, List.length_append, List.length_nil] at hf
      omega
    · rw [depth] at hd
      omega
  | _, _, .emptyObj hg, fuel + 1, d, rest, hf, hd, hr => by
    obtain ⟨d, rfl⟩ : ∃ d', d = d' + 1 := Nat.exists_eq_add_one.mpr (by rw [depth] at hd; omega)
    rw [List.cons_append, List.append_assoc, List.singleton_append, readValue,
      skipGap_cons (by decide)]
    simp only [skipGap_mark hg (by decide : isGap '\x7d' = false)]
  | _, _, .obj h, fuel + 1, d, rest, hf, hd, hr => by
    obtain ⟨d, rfl⟩ : ∃ d', d = d' + 1 := Nat.exists_eq_add_one.mpr (by rw [depth] at hd; omega)
    obtain ⟨cs, hcs⟩ := h.head ('\x7d' :: rest)
    rw [List.cons_append, List.append_assoc, List.singleton_append]
    refine readValue_object hcs (h.read ?_ ?_)
    · simp only [List.length_cons, List.length_append, List.length_nil] at hf
      omega
    · rw [depth] at hd
      omega

/-- The items of an array are read up to its closing bracket. -/
theorem SpellsItems.read : ∀ {vs : List Json} {ts : List Char}, SpellsItems vs ts →
    ∀ {fuel d : Nat} {rest : List Char}, 2 * ts.length < fuel → depthItems vs ≤ d →
      readItems fuel d (ts ++ ']' :: rest) = some (vs, rest)
  | _, _, @SpellsItems.last v g t g' hg hv hg', fuel + 1, d, rest, hf, hd => by
    simp only [List.length_append] at hf
    simp only [depthItems] at hd
    have hread : readValue fuel d (t ++ (g' ++ ']' :: rest)) = some (v, g' ++ ']' :: rest) :=
      hv.read (by omega) (by omega) (ends_gap hg' (by simp) rest)
    simp only [readItems, List.append_assoc, readValue_gap hg, hread, Option.bind_eq_bind,
      Option.bind_some, skipGap_mark hg' (by decide : isGap ']' = false)]
    rfl
  | _, _, @SpellsItems.more v vs g t g' ts hg hv hg' hvs, fuel + 1, d, rest,
      hf, hd => by
    simp only [List.length_append, List.length_cons] at hf
    rw [depthItems] at hd
    have hread : readValue fuel d (t ++ (g' ++ ',' :: (ts ++ ']' :: rest))) =
        some (v, g' ++ ',' :: (ts ++ ']' :: rest)) :=
      hv.read (by omega) (by omega) (ends_gap hg' (by simp) _)
    have hmore : readItems fuel d (ts ++ ']' :: rest) = some (vs, rest) :=
      hvs.read (by omega) (by omega)
    simp only [readItems, List.append_assoc, List.cons_append, readValue_gap hg, hread,
      Option.bind_eq_bind, Option.bind_some, skipGap_mark hg' (by decide : isGap ',' = false),
        hmore]
    rfl

/-- The members of an object are read up to its closing brace. -/
theorem SpellsMembers.read : ∀ {ms : List (String × Json)} {ts : List Char},
    SpellsMembers ms ts → ∀ {fuel d : Nat} {rest : List Char}, 2 * ts.length < fuel →
      depthMembers ms ≤ d → readMembers fuel d (ts ++ '\x7d' :: rest) = some (ms, rest)
  | _, _, @SpellsMembers.last k v g g' t g'' hg hg' hv hg'', fuel + 1, d,
      rest, hf, hd => by
    simp only [List.length_append, List.length_cons] at hf
    simp only [depthMembers] at hd
    have hread :
        readValue fuel d (t ++ (g'' ++ '\x7d' :: rest)) = some (v, g'' ++ '\x7d' :: rest) :=
      hv.read (by omega) (by omega) (ends_gap hg'' (by simp) rest)
    simp only [readMembers, quoted, List.append_assoc, List.cons_append, List.nil_append,
      skipGap_mark hg (by decide : isGap '"' = false), readString_written,
      skipGap_cons (by decide : isGap ':' = false), readValue_gap hg', hread, Option.bind_eq_bind,
      Option.bind_some, skipGap_mark hg'' (by decide : isGap '\x7d' = false)]
    rfl
  | _, _, @SpellsMembers.more k v ms g g' t g'' ts hg hg' hv hg'' hms,
      fuel + 1, d, rest, hf, hd => by
    simp only [List.length_append, List.length_cons] at hf
    rw [depthMembers] at hd
    have hread : readValue fuel d (t ++ (g'' ++ ',' :: (ts ++ '\x7d' :: rest))) =
        some (v, g'' ++ ',' :: (ts ++ '\x7d' :: rest)) :=
      hv.read (by omega) (by omega) (ends_gap hg'' (by simp) _)
    have hmore : readMembers fuel d (ts ++ '\x7d' :: rest) = some (ms, rest) :=
      hms.read (by omega) (by omega)
    simp only [readMembers, quoted, List.append_assoc, List.cons_append, List.nil_append,
      skipGap_mark hg (by decide : isGap '"' = false), readString_written,
      skipGap_cons (by decide : isGap ':' = false), readValue_gap hg', hread, Option.bind_eq_bind,
      Option.bind_some, skipGap_mark hg'' (by decide : isGap ',' = false), hmore]
    rfl
end

/-- The whole text of a spelling reads as its value. -/
theorem parse?_spells {v : Json} {t : List Char} (h : Spells v t) (hd : v.depth ≤ maxDepth) :
    parse? (String.ofList t) = some v := by
  have hread : readValue (2 * t.length + 2) maxDepth (t ++ []) = some (v, []) :=
    h.read (by omega) hd ends_nil
  rw [List.append_nil] at hread
  rw [parse?, String.toList_ofList, parseChars?, hread]
  rfl

/-! ## The two layouts are spellings -/

/-- Every number inside the value is an integer of 64 bits, signed or not. -/
def IsIntegral : Json → Prop := Each fun v => ∀ n, v = .num n → n.IsWord

theorem gap_nil : Gap [] := by
  intro c h
  cases h

theorem gap_newline (level : Nat) : Gap (newline level) := by
  intro c h
  rcases List.mem_cons.mp h with rfl | h
  · decide
  · rw [List.eq_of_mem_replicate h]
    decide

mutual
theorem spells_compactChars : ∀ {v : Json}, v.IsIntegral → Spells v (compactChars v)
  | .null, _ => .null
  | .bool true, _ => .yes
  | .bool false, _ => .no
  | .num (.int _), h => .int (h _ rfl)
  | .num (.double _), h => (h _ rfl).elim
  | .str _, _ => .str
  | .arr [], _ => .emptyArr gap_nil
  | .arr (v :: vs), h => .arr (spells_compactItems (List.cons_ne_nil v vs) h.2)
  | .obj [], _ => .emptyObj gap_nil
  | .obj (m :: ms), h => .obj (spells_compactMembers (List.cons_ne_nil m ms) h.2)

theorem spells_compactItems :
    ∀ {vs : List Json}, vs ≠ [] → EachItem (fun v => ∀ n, v = .num n → n.IsWord) vs →
    SpellsItems vs (compactItems vs)
  | [], hne, _ => absurd rfl hne
  | [v], _, h => by
    have hv := SpellsItems.last gap_nil (spells_compactChars h.1) gap_nil
    simpa [compactItems] using hv
  | v :: w :: vs, _, h =>
    .more gap_nil (spells_compactChars h.1) gap_nil
      (spells_compactItems (List.cons_ne_nil w vs) h.2)

theorem spells_compactMembers :
    ∀ {ms : List (String × Json)}, ms ≠ [] → EachMember (fun v => ∀ n, v = .num n → n.IsWord) ms →
    SpellsMembers ms (compactMembers ms)
  | [], hne, _ => absurd rfl hne
  | [(k, v)], _, h => by
    have hv := SpellsMembers.last (k := k) gap_nil gap_nil (spells_compactChars h.1) gap_nil
    simpa [compactMembers] using hv
  | (k, v) :: m :: ms, _, h =>
    .more gap_nil gap_nil (spells_compactChars h.1) gap_nil
      (spells_compactMembers (List.cons_ne_nil m ms) h.2)
end

theorem gap_space : Gap [' '] := by
  intro c h
  rw [List.mem_singleton.mp h]
  decide

mutual
theorem spells_prettyChars (level : Nat) : ∀ {v : Json}, v.IsIntegral →
    Spells v (prettyChars level v)
  | .null, _ => .null
  | .bool true, _ => .yes
  | .bool false, _ => .no
  | .num (.int _), h => .int (h _ rfl)
  | .num (.double _), h => (h _ rfl).elim
  | .str _, _ => .str
  | .arr [], _ => .emptyArr gap_nil
  | .arr (v :: vs), h =>
    .arr (spells_prettyItems (level + 1) (gap_newline level) (List.cons_ne_nil v vs) h.2)
  | .obj [], _ => .emptyObj gap_nil
  | .obj ((k, v) :: ms), h => by
    have hm := spells_prettyMembers (level + 1) (gap_newline level) (List.cons_ne_nil (k, v) ms) h.2
    simpa [prettyMembers, prettyChars] using Spells.obj hm

/-- The items without the comma that stands before the first; the white space before the closing
bracket belongs to the last one. -/
theorem spells_prettyItems (level : Nat) {g : List Char} (hg : Gap g) :
    ∀ {vs : List Json}, vs ≠ [] → EachItem (fun v => ∀ n, v = .num n → n.IsWord) vs →
      SpellsItems vs ((prettyItems level vs).tail ++ g)
  | [], hne, _ => absurd rfl hne
  | [v], _, h => by
    have hv := SpellsItems.last (gap_newline level) (spells_prettyChars level h.1) hg
    simpa [prettyItems] using hv
  | v :: w :: vs, _, h => by
    have hv := SpellsItems.more (gap_newline level) (spells_prettyChars level h.1) gap_nil
      (spells_prettyItems level hg (List.cons_ne_nil w vs) h.2)
    simpa [prettyItems] using hv

theorem spells_prettyMembers (level : Nat) {g : List Char} (hg : Gap g) :
    ∀ {ms : List (String × Json)}, ms ≠ [] → EachMember (fun v => ∀ n, v = .num n → n.IsWord) ms →
      SpellsMembers ms ((prettyMembers level ms).tail ++ g)
  | [], hne, _ => absurd rfl hne
  | [(k, v)], _, h => by
    have hv := SpellsMembers.last (k := k) (gap_newline level) gap_space
      (spells_prettyChars level h.1) hg
    simpa [prettyMembers] using hv
  | (k, v) :: (k', w) :: ms, _, h => by
    have hv := SpellsMembers.more (k := k) (gap_newline level) gap_space
      (spells_prettyChars level h.1) gap_nil
      (spells_prettyMembers level hg (List.cons_ne_nil (k', w) ms) h.2)
    simpa [prettyMembers] using hv
end

theorem parse?_compact {v : Json} (h : v.IsIntegral) (hd : v.depth ≤ maxDepth) :
    parse? v.compact = some v :=
  parse?_spells (spells_compactChars h) hd

theorem parse?_pretty {v : Json} (h : v.IsIntegral) (hd : v.depth ≤ maxDepth) :
    parse? v.pretty = some v :=
  parse?_spells (spells_prettyChars 0 h) hd

end SourceAtlas.Json

import Mathlib.Data.Nat.Find
import SourceAtlas.Proofs.CSource.Functions

/-! # Where the body of a function ends

Braces are counted line by line, and a body ends with the first line at whose end as many are closed
as were opened. Counted character by character the braces may be balanced before: the two ways agree
exactly where the rest of the line on which the braces are first balanced opens as many braces as it
closes, or the text ends with that line. -/

namespace SourceAtlas.CSource

open Text

/-- The number of open braces behind a text, `d` of them being open before it. -/
def depth (d : Int) (cs : List Char) : Int := d + cs.count '\x7b' - cs.count '\x7d'

theorem depth_append (d : Int) (cs ds : List Char) :
    depth d (cs ++ ds) = depth (depth d cs) ds := by
  simp only [depth, List.count_append, Int.natCast_add]
  omega

theorem depth_cons (d : Int) (c : Char) (cs : List Char) :
    depth d (c :: cs) = depth (depth d [c]) cs := depth_append d [c] cs

/-- Up to a place of a text, all braces are closed. -/
def Balanced (d : Int) (cs : List Char) (k : Nat) : Prop := depth d (cs.take k) = 0

instance (d : Int) (cs : List Char) (k : Nat) : Decidable (Balanced d cs k) :=
  inferInstanceAs (Decidable (_ = _))

def EndsLine (cs : List Char) (k : Nat) : Prop := ∀ c ∈ cs[k]?, c = '\n'

def LineBalanced (d : Int) (cs : List Char) (k : Nat) : Prop := EndsLine cs k ∧ Balanced d cs k

/-- The first place of a text that `stop` holds of. -/
structure FirstAt (stop : Nat → Prop) (cs : List Char) (k : Nat) : Prop where
  le : k ≤ cs.length
  holds : stop k
  first : ∀ j < k, ¬ stop j

/-- A text is read up to the line of the first place that `stop` holds of, or to its end where there
is none, and these are `m` lines. -/
def Reaches (stop : Nat → Prop) (cs : List Char) (m : Nat) : Prop :=
  (∃ k, FirstAt stop cs k ∧ m = (cs.take k).count '\n' + 1) ∨
    ((∀ k ≤ cs.length, ¬ stop k) ∧ m = (lines cs).length)

/-! ## Counting line by line -/

theorem Reaches.here {stop : Nat → Prop} {cs : List Char} (h : stop 0) : Reaches stop cs 1 :=
  .inl ⟨0, ⟨Nat.zero_le _, h, fun j hj => absurd hj (Nat.not_lt_zero j)⟩, by simp⟩

/-- Reading goes on behind a character at which it does not stop. -/
theorem Reaches.cons {stop stop' : Nat → Prop} (c : Char) {cs : List Char} {m : Nat}
    (hzero : ¬ stop 0) (hsucc : ∀ k, stop (k + 1) ↔ stop' k) (h : Reaches stop' cs m) :
    Reaches stop (c :: cs) (m + if c = '\n' then 1 else 0) := by
  have hcount (k : Nat) : ((c :: cs).take (k + 1)).count '\n' =
      (cs.take k).count '\n' + if c = '\n' then 1 else 0 := by
    simp [List.count_cons]
  obtain ⟨k, hk, hm⟩ | ⟨hnone, hm⟩ := h
  · refine .inl ⟨k + 1, ⟨by simpa using hk.le, (hsucc k).mpr hk.holds, ?_⟩, ?_⟩
    · intro j hj
      cases j with
      | zero => exact hzero
      | succ j => exact mt (hsucc j).mp (hk.first j (by omega))
    · rw [hcount, hm]
      omega
  · refine .inr ⟨?_, ?_⟩
    · intro k hk
      cases k with
      | zero => exact hzero
      | succ k => exact mt (hsucc k).mp (hnone k (by simpa using hk))
    · rw [hm, lines_length, lines_length, List.count_cons]
      simp
      omega

theorem bodyLines_front (d : Int) (ls : List (List Char)) : bodyLines d ls <+: ls := by
  induction ls generalizing d with
  | nil => exact List.prefix_rfl
  | cons l ls ih =>
    rw [bodyLines]
    split
    · exact (List.prefix_cons_inj l).mpr List.nil_prefix
    · exact (List.prefix_cons_inj l).mpr (ih _)

/-- A character in front of the first line counts before the line does. -/
theorem bodyLines_cons_length (d : Int) (c : Char) (l : List Char) (ls : List (List Char)) :
    (bodyLines d ((c :: l) :: ls)).length = (bodyLines (depth d [c]) (l :: ls)).length := by
  have hdepth : d + (c :: l).count '\x7b' - (c :: l).count '\x7d' =
      depth d [c] + l.count '\x7b' - l.count '\x7d' := depth_cons d c l
  rw [bodyLines, bodyLines, hdepth]
  split <;> rfl

theorem balanced_zero {d : Int} {cs : List Char} : Balanced d cs 0 ↔ d = 0 := by
  simp [Balanced, depth]

theorem lineBalanced_succ (d : Int) (c : Char) (cs : List Char) (k : Nat) :
    LineBalanced d (c :: cs) (k + 1) ↔ LineBalanced (depth d [c]) cs k := by
  unfold LineBalanced EndsLine Balanced
  rw [List.getElem?_cons_succ, List.take_succ_cons, depth_cons]

/-- The lines of a body are read up to the first end of a line at which the braces are balanced. -/
theorem bodyLines_reaches (d : Int) (cs : List Char) :
    Reaches (LineBalanced d cs) cs (bodyLines d (lines cs)).length := by
  induction cs generalizing d with
  | nil =>
    have hlength : (bodyLines d (lines [])).length = 1 := by
      have hlines : lines [] = [[]] := rfl
      rw [hlines, bodyLines]
      split <;> rfl
    rw [hlength]
    by_cases hd : d = 0
    · exact .here ⟨by simp [EndsLine], balanced_zero.mpr hd⟩
    · refine .inr ⟨?_, rfl⟩
      intro k hk h
      obtain rfl : k = 0 := by simpa using hk
      exact hd (balanced_zero.mp h.2)
  | cons c cs ih =>
    have hrest := ih (depth d [c])
    by_cases hc : c = '\n'
    · subst hc
      have hdepth : depth d ['\n'] = d := by simp [depth]
      rw [lines_break, bodyLines]
      by_cases hd : d = 0
      · rw [if_pos (by simpa using hd)]
        exact .here ⟨by simp [EndsLine], balanced_zero.mpr hd⟩
      · rw [if_neg (by simpa using hd)]
        have hzero : ¬ LineBalanced d ('\n' :: cs) 0 := fun h => hd (balanced_zero.mp h.2)
        have h := Reaches.cons '\n' hzero (lineBalanced_succ d '\n' cs) hrest
        rw [hdepth, if_pos rfl] at h
        simpa using h
    · obtain ⟨first, rest, hlines, hcons⟩ := lines_cons hc cs
      have hzero : ¬ LineBalanced d (c :: cs) 0 := fun h => hc (h.1 c rfl)
      have h := Reaches.cons c hzero (lineBalanced_succ d c cs) hrest
      rw [if_neg hc, Nat.add_zero, hlines] at h
      rwa [hcons, bodyLines_cons_length]

/-! ## Counting character by character -/

def restOfLine (cs : List Char) (k : Nat) : List Char := (cs.drop k).takeWhile (· ≠ '\n')

theorem take_lineEnd (cs : List Char) (k : Nat) :
    cs.take (k + (restOfLine cs k).length) = cs.take k ++ restOfLine cs k := by
  have hprefix : restOfLine cs k <+: cs.drop k := List.takeWhile_prefix _
  rw [List.take_add, ← List.prefix_iff_eq_take.mp hprefix]

theorem endsLine_lineEnd (cs : List Char) (k : Nat) :
    EndsLine cs (k + (restOfLine cs k).length) := by
  have hdrop : cs.drop k = restOfLine cs k ++ (cs.drop k).dropWhile (· ≠ '\n') :=
    List.takeWhile_append_dropWhile.symm
  have hstop := head?_dropWhile_any (· ≠ '\n') (cs.drop k)
  unfold EndsLine
  rw [← List.getElem?_drop, hdrop, List.getElem?_append_right (Nat.le_refl _), Nat.sub_self,
    ← List.head?_eq_getElem?]
  intro c hc
  rw [hc] at hstop
  simpa using hstop

theorem count_restOfLine (cs : List Char) (k : Nat) : (restOfLine cs k).count '\n' = 0 := by
  rw [List.count_eq_zero]
  intro h
  simpa using List.mem_takeWhile_imp h

/-- The breaks up to a place are no more than those up to a later one. -/
theorem breaks_mono (cs : List Char) {j k : Nat} (h : j ≤ k) :
    (cs.take j).count '\n' ≤ (cs.take k).count '\n' :=
  (List.take_prefix_take_left h).sublist.count_le '\n'

/-- Behind an end of a line that is not the end of the text stands a break. -/
theorem EndsLine.breaks_lt {cs : List Char} {j k : Nat} (h : EndsLine cs j) (hjk : j < k)
    (hk : k ≤ cs.length) : (cs.take j).count '\n' < (cs.take k).count '\n' := by
  have hj : cs[j]? = some '\n' := by
    have hlt : j < cs.length := by omega
    rw [List.getElem?_eq_getElem hlt]
    exact congrArg some (h _ (List.getElem?_eq_getElem hlt))
  have hnext : (cs.take (j + 1)).count '\n' = (cs.take j).count '\n' + 1 := by
    rw [List.take_add_one, hj]
    simp
  have hmono : (cs.take (j + 1)).count '\n' ≤ (cs.take k).count '\n' := breaks_mono cs hjk
  omega

theorem FirstAt.unique {stop : Nat → Prop} {cs : List Char} {j k : Nat} (hj : FirstAt stop cs j)
    (hk : FirstAt stop cs k) : j = k := by
  have hjk : ¬ j < k := fun h => hk.first j h hj.holds
  have hkj : ¬ k < j := fun h => hj.first k h hk.holds
  omega

theorem exists_firstAt {stop : Nat → Prop} {cs : List Char} {k : Nat} (hk : k ≤ cs.length)
    (h : stop k) : ∃ j, FirstAt stop cs j := by
  classical
  have hex : ∃ k, stop k := ⟨k, h⟩
  exact ⟨Nat.find hex, Nat.le_trans (Nat.find_min' hex h) hk, Nat.find_spec hex,
    fun j hj => Nat.find_min hex hj⟩

theorem breaks_le_lines (cs : List Char) (k : Nat) :
    (cs.take k).count '\n' + 1 ≤ (lines cs).length := by
  rw [lines_length]
  exact Nat.add_le_add_right ((List.take_sublist k cs).count_le '\n') 1

/-- Counting line by line never stops before the braces are balanced. -/
theorem Reaches.not_before {d : Int} {cs : List Char} {m : Nat}
    (h : Reaches (LineBalanced d cs) cs m) {k : Nat} (hk : FirstAt (Balanced d cs) cs k) :
    (cs.take k).count '\n' + 1 ≤ m := by
  obtain ⟨j, hj, hm⟩ | ⟨_, hm⟩ := h
  · have hkj : k ≤ j := Nat.le_of_not_lt fun hlt => hk.first j hlt hj.holds.2
    rw [hm]
    exact Nat.add_le_add_right (breaks_mono cs hkj) 1
  · rw [hm]
    exact breaks_le_lines cs k

/-- The braces are balanced at the end of the line, too. -/
theorem balanced_lineEnd {d : Int} {cs : List Char} {k : Nat} (h : Balanced d cs k) :
    Balanced d cs (k + (restOfLine cs k).length) ↔
      (restOfLine cs k).count '\x7b' = (restOfLine cs k).count '\x7d' := by
  unfold Balanced at h ⊢
  rw [take_lineEnd, depth_append, h]
  unfold depth
  omega

theorem lineEnd_le {cs : List Char} {k : Nat} (hk : k ≤ cs.length) :
    k + (restOfLine cs k).length ≤ cs.length := by
  have hle : (restOfLine cs k).length ≤ (cs.drop k).length := (List.takeWhile_prefix _).length_le
  rw [List.length_drop] at hle
  omega

theorem breaks_lineEnd (cs : List Char) (k : Nat) :
    (cs.take (k + (restOfLine cs k).length)).count '\n' = (cs.take k).count '\n' := by
  rw [take_lineEnd, List.count_append, count_restOfLine, Nat.add_zero]

/-- The end of a line is the only one with as many breaks before it. -/
theorem EndsLine.eq_lineEnd {cs : List Char} {j k : Nat} (hj : EndsLine cs j) (hle : j ≤ cs.length)
    (hk : k ≤ cs.length) (h : (cs.take j).count '\n' = (cs.take k).count '\n') :
    j = k + (restOfLine cs k).length := by
  have hend := breaks_lineEnd cs k
  obtain hlt | heq | hgt := Nat.lt_trichotomy j (k + (restOfLine cs k).length)
  · have := hj.breaks_lt hlt (lineEnd_le hk)
    omega
  · exact heq
  · have := (endsLine_lineEnd cs k).breaks_lt hgt hle
    omega

theorem breaks_add_drop (cs : List Char) (k : Nat) :
    (cs.take k).count '\n' + (cs.drop k).count '\n' = cs.count '\n' := by
  rw [← List.count_append, List.take_append_drop]

/-- The two ways of counting braces end with the same line exactly where the line on which the
braces are first balanced closes as many behind that place as it opens, or is the last line. -/
theorem Reaches.balanced_iff {d : Int} {cs : List Char} {m : Nat}
    (h : Reaches (LineBalanced d cs) cs m) :
    Reaches (Balanced d cs) cs m ↔ ∀ k, FirstAt (Balanced d cs) cs k →
      (restOfLine cs k).count '\x7b' = (restOfLine cs k).count '\x7d' ∨ '\n' ∉ cs.drop k := by
  constructor
  · intro hr k hk
    have hm : m = (cs.take k).count '\n' + 1 := by
      obtain ⟨j, hj, hm⟩ | ⟨hnone, _⟩ := hr
      · rwa [hj.unique hk] at hm
      · exact absurd hk.holds (hnone k hk.le)
    obtain ⟨j, hj, hmj⟩ | ⟨_, hlast⟩ := h
    · left
      have hend := hj.holds.1.eq_lineEnd hj.le hk.le (by omega)
      rw [← balanced_lineEnd hk.holds, ← hend]
      exact hj.holds.2
    · right
      rw [lines_length] at hlast
      have := breaks_add_drop cs k
      rw [← List.count_eq_zero]
      omega
  · intro hcond
    by_cases hex : ∃ k ≤ cs.length, Balanced d cs k
    · obtain ⟨k, hle, hk⟩ := hex
      obtain ⟨k, hk⟩ := exists_firstAt hle hk
      refine .inl ⟨k, hk, ?_⟩
      have hge := h.not_before hk
      obtain hrest | hlast := hcond k hk
      · -- the end of the line is a place at which counting line by line stops
        have hstop : LineBalanced d cs (k + (restOfLine cs k).length) :=
          ⟨endsLine_lineEnd cs k, (balanced_lineEnd hk.holds).mpr hrest⟩
        obtain ⟨j, hj, hm⟩ | ⟨hnone, _⟩ := h
        · have hle : j ≤ k + (restOfLine cs k).length :=
            Nat.le_of_not_lt fun hlt => hj.first _ hlt hstop
          have := breaks_mono cs hle
          have := breaks_lineEnd cs k
          omega
        · exact absurd hstop (hnone _ (lineEnd_le hk.le))
      · have hle : m ≤ (lines cs).length := by
          obtain ⟨j, _, hm⟩ | ⟨_, hm⟩ := h
          · exact hm ▸ breaks_le_lines cs j
          · exact Nat.le_of_eq hm
        have := breaks_add_drop cs k
        rw [lines_length] at hle
        rw [← List.count_eq_zero] at hlast
        omega
    · simp only [not_exists, not_and] at hex
      refine .inr ⟨hex, ?_⟩
      obtain ⟨j, hj, _⟩ | ⟨_, hm⟩ := h
      · exact absurd hj.holds.2 (hex j hj.le)
      · exact hm

/-! ## Bodies -/

/-- What the table says of a body is read off the given lines, the first of them having the number
after that on which the head starts. -/
structure Function.Covers (f : Function) (body : List (List Char)) : Prop where
  endLine : f.endLine = f.startLine + body.length
  locals : f.locals =
    (body.zipIdx (f.startLine + 1)).filterMap fun (cs, line) => declaration? cs line
  calls : f.calls = (body.zipIdx (f.startLine + 1)).flatMap fun (cs, line) => callsIn cs line
  controlFlow : f.controlFlow =
    (body.zipIdx (f.startLine + 1)).filterMap fun (cs, line) => controlFlow? cs line
  complexity : f.complexity = complexityOf body
  dependencies : f.dependencies = sortedSet (f.calls.map (·.name))

theorem Head.covers (h : Head) (text : List Char) :
    (h.function text).Covers (bodyLines 1 (lines (text.drop h.stop))) :=
  ⟨rfl, rfl, rfl, rfl, rfl, rfl⟩

/-- A function is summarized from a head of a text and the first `m` lines of what follows that
head. -/
structure Function.Spans (f : Function) (text rest : List Char) (m : Nat) : Prop where
  head : ∃ head : Head, head.In text ∧ head.Gives text f ∧ text.drop head.stop = rest
  covers : f.Covers ((lines rest).take m)

/-- A function is summarized from the lines behind its head up to the first end of a line at which
its braces are balanced, or to the end of the text. This is never before the line on which, counted
character by character, they are first balanced, and it is that line exactly where what follows on
it opens as many braces as it closes, or where it is the last one. -/
theorem functions_cover (text : String) (f : Function) (hf : f ∈ (summarize text).functions) :
    ∃ (rest : List Char) (m : Nat), f.Spans text.toList rest m ∧
      Reaches (LineBalanced 1 rest) rest m ∧
      (∀ k, FirstAt (Balanced 1 rest) rest k → (rest.take k).count '\n' + 1 ≤ m) ∧
      (Reaches (Balanced 1 rest) rest m ↔ ∀ k, FirstAt (Balanced 1 rest) rest k →
        (restOfLine rest k).count '\x7b' = (restOfLine rest k).count '\x7d' ∨
          '\n' ∉ rest.drop k) := by
  obtain ⟨head, hin, rfl⟩ := exists_head_of_mem hf
  have hreaches := bodyLines_reaches 1 (text.toList.drop head.stop)
  have hprefix := bodyLines_front 1 (lines (text.toList.drop head.stop))
  refine ⟨_, _, ⟨⟨head, hin, head.gives _, rfl⟩, ?_⟩, hreaches, fun k hk => hreaches.not_before hk,
    hreaches.balanced_iff⟩
  rw [← List.prefix_iff_eq_take.mp hprefix]
  exact head.covers _

/-- The closing brace of a function and that of the block around it on one line, and another
function behind it. -/
def closedTogether : String :=
  "extern \"C\" \x7b\nvoid f()\n\x7b\n    a();\n\x7d\x7d\nvoid g()\n\x7b\n    b();\n\x7d\n"

/-- The first function of the text: the head of the second one counts as a call. -/
def overrun : Function where
  name := "f"
  returnType := "void"
  parameters := []
  startLine := 2
  endLine := 7
  locals := []
  calls := [⟨"a", 4⟩, ⟨"g", 6⟩]
  controlFlow := []
  complexity := 1
  inputs := []
  outputs := []
  dependencies := ["a", "g"]

theorem overrun_mem : overrun ∈ (summarize closedTogether).functions := by decide

/-- A head ends where the headers with the name of its function do. -/
theorem Head.stop_eq {text : List Char} {head : Head} {f : Function} (hin : head.In text)
    (hgives : head.Gives text f) {stop : Nat} (hstops : ∀ i < text.length,
      ∀ m ∈ headerAt? (text.drop i), m.1.typed.name = f.name.toList → i + m.2 = stop) :
    head.stop = stop := by
  have hname : head.signature.header.typed.name = f.name.toList := by
    rw [hgives.name, String.toList_ofList]
    rfl
  exact hstops head.start (Head.start_lt hin) _ (Head.headerAt?_drop hin) hname

/-- A head with its brace on the next line, and a body that is closed on a line of its own. -/
def closedApart : String := "void f()\n\x7b\n    a();\n\x7d\n"

def regular : Function where
  name := "f"
  returnType := "void"
  parameters := []
  startLine := 1
  endLine := 4
  locals := []
  calls := [⟨"a", 3⟩]
  controlFlow := []
  complexity := 1
  inputs := []
  outputs := []
  dependencies := ["a"]

theorem regular_mem : regular ∈ (summarize closedApart).functions := by decide

theorem stop_of_regular {head : Head} (hin : head.In closedApart.toList)
    (hgives : head.Gives closedApart.toList regular) : head.stop = 10 :=
  Head.stop_eq hin hgives (by decide)

/-- The function that runs on, and one whose scan ends on the line on which its braces are
balanced. -/
theorem functions_cover_overrun :
    (overrun ∈ (summarize closedTogether).functions ∧
      ∃ (rest : List Char) (m : Nat), overrun.Spans closedTogether.toList rest m ∧
        Reaches (LineBalanced 1 rest) rest m ∧
        (∀ k, FirstAt (Balanced 1 rest) rest k → (rest.take k).count '\n' + 1 ≤ m) ∧
        (Reaches (Balanced 1 rest) rest m ↔ ∀ k, FirstAt (Balanced 1 rest) rest k →
          (restOfLine rest k).count '\x7b' = (restOfLine rest k).count '\x7d' ∨
            '\n' ∉ rest.drop k)) ∧
    regular ∈ (summarize closedApart).functions ∧
    ∃ (rest : List Char) (m : Nat), regular.Spans closedApart.toList rest m ∧
      Reaches (Balanced 1 rest) rest m := by
  refine ⟨⟨overrun_mem, functions_cover closedTogether overrun overrun_mem⟩, regular_mem, ?_⟩
  obtain ⟨rest, m, hspans, _, _, hends⟩ := functions_cover closedApart regular regular_mem
  refine ⟨rest, m, hspans, hends.mpr ?_⟩
  intro k hk
  obtain ⟨head, hin, hgives, rfl⟩ := hspans.head
  rw [stop_of_regular hin hgives] at hk ⊢
  have hfirst : FirstAt (Balanced 1 (closedApart.toList.drop 10)) (closedApart.toList.drop 10) 11 :=
    ⟨by decide, by decide, by decide⟩
  rw [hk.unique hfirst]
  decide

set_option maxRecDepth 4000 in
theorem stop_of_overrun {head : Head} (hin : head.In closedTogether.toList)
    (hgives : head.Gives closedTogether.toList overrun) : head.stop = 23 :=
  Head.stop_eq hin hgives (by decide)

/-- The function goes on behind the line on which its braces are balanced, and takes up a call from
behind it. -/
theorem overrun_behind_balance : overrun ∈ (summarize closedTogether).functions ∧
    ¬ ∃ (rest : List Char) (m : Nat), overrun.Spans closedTogether.toList rest m ∧
      Reaches (Balanced 1 rest) rest m := by
  refine ⟨overrun_mem, ?_⟩
  intro ⟨rest, m, ⟨⟨head, hin, hgives, hrest⟩, hcovers⟩, hreaches⟩
  rw [stop_of_overrun hin hgives] at hrest
  subst hrest
  have hfirst : FirstAt (Balanced 1 (closedTogether.toList.drop 23))
      (closedTogether.toList.drop 23) 11 := ⟨by decide, by decide, by decide⟩
  have hm : m = 3 := by
    obtain ⟨k, hk, hm⟩ | ⟨hnone, _⟩ := hreaches
    · rw [hk.unique hfirst] at hm
      exact hm.trans (by decide)
    · exact absurd hfirst.holds (hnone 11 hfirst.le)
  -- three lines end with line 5, and the table says 7
  have hend := hcovers.endLine
  rw [hm] at hend
  revert hend
  decide

end SourceAtlas.CSource

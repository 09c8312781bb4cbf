import SourceAtlas.Proofs.CSource.LineNumbers
import SourceAtlas.Proofs.Text.SortedSet

/-! # The bounds of a function

A body has a line at least, whatever text follows the opening brace, and the lines that are searched
for entries are those up to which the function reaches and those whose branches are counted. So
every entry lies behind the start of the function and not behind its end, and the complexity is
bounded by the lines in between. -/

namespace SourceAtlas.CSource

open Text

/-! ## Numbered lines -/

section Numbered

variable {body : List (List Char)} {cs : List Char} {k line : Nat}

theorem numbered_increasing (body : List (List Char)) (k : Nat) :
    (body.zipIdx k).Pairwise fun x y => x.2 < y.2 := by
  rw [← List.pairwise_map (f := Prod.snd), List.zipIdx_map_snd]
  exact List.pairwise_lt_range'

theorem numbered_within (h : (cs, line) ∈ body.zipIdx (k + 1)) :
    k < line ∧ line ≤ k + body.length := by
  obtain ⟨hlo, hhi, -⟩ := List.mem_zipIdx h
  omega

end Numbered

theorem bodyLines_ne_nil (d : Int) {ls : List (List Char)} (h : ls ≠ []) : bodyLines d ls ≠ [] := by
  obtain ⟨l, ls, rfl⟩ := List.exists_cons_of_ne_nil h
  rw [bodyLines]
  split <;> exact List.cons_ne_nil _ _

/-! ## Functions -/

/-- Entries behind line `start` and not behind line `stop`. -/
def Within {β : Type} (line : β → Nat) (start stop : Nat) (entries : List β) : Prop :=
  ∀ e ∈ entries, start < line e ∧ line e ≤ stop

/-- The entries of a function lie within its lines and in their order, variables and branches with
at most one on a line; its complexity is bounded by its lines, and its dependencies are the names of
its calls. -/
structure Function.Bounded (f : Function) : Prop where
  lines : f.startLine < f.endLine
  locals : Within Declaration.line f.startLine f.endLine f.locals
  calls : Within Call.line f.startLine f.endLine f.calls
  controlFlow : Within ControlFlow.line f.startLine f.endLine f.controlFlow
  locals_increasing : f.locals.Pairwise fun a b => a.line < b.line
  calls_ordered : f.calls.Pairwise fun a b => a.line ≤ b.line
  controlFlow_increasing : f.controlFlow.Pairwise fun a b => a.line < b.line
  complexity_pos : 1 ≤ f.complexity
  complexity_le : f.complexity ≤ 1 + (f.endLine - f.startLine)
  dependencies : Collects f.dependencies (f.calls.map (·.name))

namespace Function.Covers

variable {f : Function} {body : List (List Char)} (h : f.Covers body)
include h

theorem locals_within : Within Declaration.line f.startLine f.endLine f.locals := by
  intro d hd
  rw [h.locals] at hd
  obtain ⟨⟨cs, line⟩, hcs, hd⟩ := List.mem_filterMap.mp hd
  rw [(declaration_on_line hd).1, h.endLine]
  exact numbered_within hcs

theorem calls_within : Within Call.line f.startLine f.endLine f.calls := by
  intro c hc
  rw [h.calls] at hc
  obtain ⟨⟨cs, line⟩, hcs, hc⟩ := List.mem_flatMap.mp hc
  rw [(call_on_line hc).1, h.endLine]
  exact numbered_within hcs

theorem controlFlow_within : Within ControlFlow.line f.startLine f.endLine f.controlFlow := by
  intro b hb
  rw [h.controlFlow] at hb
  obtain ⟨⟨cs, line⟩, hcs, hb⟩ := List.mem_filterMap.mp hb
  rw [(keyword_on_line hb).1, h.endLine]
  exact numbered_within hcs

theorem locals_increasing : f.locals.Pairwise fun a b => a.line < b.line := by
  rw [h.locals, List.pairwise_filterMap]
  refine (numbered_increasing ..).imp fun {x y} hlt a ha b hb => ?_
  rwa [(declaration_on_line ha).1, (declaration_on_line hb).1]

theorem controlFlow_increasing : f.controlFlow.Pairwise fun a b => a.line < b.line := by
  rw [h.controlFlow, List.pairwise_filterMap]
  refine (numbered_increasing ..).imp fun {x y} hlt a ha b hb => ?_
  rwa [(keyword_on_line ha).1, (keyword_on_line hb).1]

theorem calls_ordered : f.calls.Pairwise fun a b => a.line ≤ b.line := by
  rw [h.calls, List.pairwise_flatMap]
  constructor
  · intro x _
    -- all calls of a line have its number
    refine List.pairwise_of_forall_mem_list fun a ha b hb => ?_
    rw [(call_on_line ha).1, (call_on_line hb).1]
  · refine (numbered_increasing ..).imp fun {x y} hlt a ha b hb => ?_
    rw [(call_on_line ha).1, (call_on_line hb).1]
    exact Nat.le_of_lt hlt

theorem bounded (hne : body ≠ []) : f.Bounded where
  lines := by
    have hpos := List.length_pos_of_ne_nil hne
    have hend := h.endLine
    omega
  locals := h.locals_within
  calls := h.calls_within
  controlFlow := h.controlFlow_within
  locals_increasing := h.locals_increasing
  calls_ordered := h.calls_ordered
  controlFlow_increasing := h.controlFlow_increasing
  complexity_pos := by
    rw [h.complexity]
    exact Nat.le_add_right 1 _
  complexity_le := by
    rw [h.complexity, h.endLine, Nat.add_sub_cancel_left]
    exact Nat.add_le_add_left List.countP_le_length 1
  dependencies := by
    rw [h.dependencies]
    exact sortedSet_collects _

end Function.Covers

/-! ## The whole text -/

section Text

variable {text : String} {f : Function}

theorem inputs_eq (hf : f ∈ (summarize text).functions) :
    f.inputs = f.parameters.map (·.name) := by
  obtain ⟨head, -, rfl⟩ := exists_head_of_mem hf
  rfl

theorem mem_outputs (hf : f ∈ (summarize text).functions) {s : String} :
    s ∈ f.outputs ↔ f.returnType = s ∧ s ≠ "void" := by
  obtain ⟨head, -, rfl⟩ := exists_head_of_mem hf
  have houtputs : (head.function text.toList).outputs =
      if (head.function text.toList).returnType = "void" then []
      else [(head.function text.toList).returnType] := rfl
  rw [houtputs]
  split
  · next hvoid => simp [hvoid, eq_comm]
  · next hvalue =>
    rw [List.mem_singleton]
    constructor
    · rintro rfl
      exact ⟨rfl, hvalue⟩
    · exact fun h => h.1.symm

end Text

/-- In the table of a text every function keeps its bounds, and what goes into and comes out of the
text is what goes into and comes out of its functions, in order and each once. -/
theorem summarize_bounded (text : String) :
    (∀ f ∈ (summarize text).functions, f.Bounded) ∧
    Collects (summarize text).parameterNames ((summarize text).functions.flatMap (·.inputs)) ∧
    Collects (summarize text).returnTypes ((summarize text).functions.flatMap (·.outputs)) := by
  refine ⟨?_, ?_, ?_⟩
  · intro f hf
    obtain ⟨head, -, rfl⟩ := exists_head_of_mem hf
    exact (head.covers _).bounded (bodyLines_ne_nil 1 (cut_ne_nil _ _))
  · have hinputs : (summarize text).functions.flatMap (·.inputs) =
        (summarize text).functions.flatMap fun f => f.parameters.map (·.name) :=
      List.flatMap_congr fun f hf => inputs_eq hf
    rw [hinputs]
    exact sortedSet_collects _
  · refine (sortedSet_collects _).congr fun s => ?_
    rw [List.mem_filter, List.mem_map, List.mem_flatMap, decide_eq_true_iff]
    constructor
    · rintro ⟨⟨f, hf, hs⟩, hvalue⟩
      exact ⟨f, hf, (mem_outputs hf).mpr ⟨hs, hvalue⟩⟩
    · rintro ⟨f, hf, hs⟩
      obtain ⟨hs, hvalue⟩ := (mem_outputs hf).mp hs
      exact ⟨⟨f, hf, hs⟩, hvalue⟩

/-- The first body ends on its first line, the second one is not closed before the text ends. -/
example : (summarize
    "void f() \x7b\x7d\nint g(int a) \x7b\n  if (a)\n    for (;;) h(k(), k());\n").functions.map
      (fun f => (f.startLine, f.endLine, f.complexity, f.dependencies)) =
        [(1, 2, 1, []), (2, 6, 3, ["for", "h", "if", "k"])] := by
  decide

end SourceAtlas.CSource

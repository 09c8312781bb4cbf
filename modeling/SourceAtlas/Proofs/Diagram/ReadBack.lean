import SourceAtlas.Diagram.Render
import SourceAtlas.Proofs.Svg.ReadBack

/-! # Diagrams read back

The renderers write names and texts of their own as tags and attributes only; what comes from a tree
or its links stands in attribute values and in texts. So the documents of all diagrams show exactly
the figures of their steps. -/

namespace SourceAtlas

open Svg

theorem Diagram.legend_readable (surfaceWidth : Float) (dims : Dimensions Float) :
    Readable (legend surfaceWidth dims) := by
  have hitem (x : Category × Nat) : Readable (legendItem x.2 x.1) := by
    simp +decide [legendItem]
  refine .append (.append ?_ (.flatMap hitem _)) (by decide)
  simp +decide

/-! ## The tree -/

namespace TreeView

theorem linkDrawing_readable (f : TreeState.Frame Float) (link : Nat × Nat) :
    Readable (linkDrawing f link) := by
  unfold linkDrawing
  split
  · simp +decide
  · exact readable_nil

theorem nodeDrawing_readable (n : TreeState.Placed Float) : Readable (nodeDrawing n) := by
  unfold nodeDrawing
  split
  simp +decide

theorem drawing_readable (v : TreeView Float) : Readable v.drawing := by
  have hgroups (a b : String) : Readable [.enter "g" [("class", a), ("transform", b)],
      .enter "g" [("fill", "none"), ("stroke", "#ccc"), ("stroke-width", "1.5")]] := by
    simp +decide
  have hleave : Readable [.leave] := by decide
  exact (((((hgroups _ _).append (.flatMap (linkDrawing_readable v.frame) _)).append hleave).append
    (.flatMap nodeDrawing_readable _)).append hleave).append (Diagram.legend_readable _ _)

end TreeView

/-! ## The treemap -/

namespace Treemap

def surfaceWidth (dims : Dimensions Float) : Float :=
  dims.width * 1.5 - dims.margin.left - dims.margin.right + dims.margin.left + dims.margin.right

def surfaceHeight (dims : Dimensions Float) : Float :=
  dims.height * 2.0 - dims.margin.top - dims.margin.bottom + dims.margin.top + dims.margin.bottom
    + paddingTop

def drawing (root : Node) (dims : Dimensions Float) : Drawing :=
  [.enter "g" [("class", "treemap"),
      ("transform", translate dims.margin.left (dims.margin.top + paddingTop))]]
    ++ (layout root ⟨0.0, 0.0, dims.width * 1.5 - dims.margin.left - dims.margin.right,
      dims.height * 2.0 - dims.margin.top - dims.margin.bottom⟩).flatMap cellDrawing
    ++ [.leave]
    ++ Diagram.legend (surfaceWidth dims) dims

theorem toSvg_eq (root : Node) (dims : Dimensions Float) :
    toSvg root dims = document (surfaceWidth dims) (surfaceHeight dims) (drawing root dims) := rfl

theorem cellDrawing_readable (c : Cell Float) : Readable (cellDrawing c) := by
  unfold cellDrawing
  split
  simp +decide [caption]

theorem drawing_readable (root : Node) (dims : Dimensions Float) :
    Readable (drawing root dims) := by
  refine .append (.append (.append ?_ (.flatMap cellDrawing_readable _)) (by decide))
    (Diagram.legend_readable _ _)
  simp +decide

end Treemap

/-! ## The arc diagram -/

namespace ArcDiagram

theorem linkDrawing_readable (d : ArcDiagram) (l : Link) : Readable (d.linkDrawing l) := by
  unfold linkDrawing
  split
  · simp +decide
  · exact readable_nil

theorem endpointDrawing_readable (d : ArcDiagram) (e : Endpoint) :
    Readable (d.endpointDrawing e) := by
  simp +decide [endpointDrawing]

theorem drawing_readable (d : ArcDiagram) : Readable d.drawing := by
  have hgroups (b : String) : Readable [.enter "g" [("class", "arc"), ("transform", b)],
      .enter "g" [("fill", "none"), ("stroke-width", "1.5")]] := by
    simp +decide
  have hnext :
      Readable [.leave, .enter "g" [("font-size", "10"), ("text-anchor", "end")]] := by decide
  have hleave : Readable [.leave, .leave] := by decide
  exact (((((hgroups _).append (.flatMap d.linkDrawing_readable _)).append hnext).append
    (.flatMap d.endpointDrawing_readable _)).append hleave).append (Diagram.legend_readable _ _)

end ArcDiagram

/-- The document of a drawing, read back, shows exactly the figures that its steps describe. So does
that of every tree, treemap and arc diagram, whatever names and paths stand in what it draws. -/
theorem documents_readBack :
    (∀ (width height : Float) (drawing : Drawing), Readable drawing →
      ReadsAs (document width height drawing) (documentAttributes width height) (figures drawing)) ∧
    (∀ v : TreeView Float, ReadsAs v.toSvg (documentAttributes v.surfaceWidth v.surfaceHeight)
      (figures v.drawing)) ∧
    (∀ (root : Node) (dims : Dimensions Float), ReadsAs (Treemap.toSvg root dims)
      (documentAttributes (Treemap.surfaceWidth dims) (Treemap.surfaceHeight dims))
      (figures (Treemap.drawing root dims))) ∧
    ∀ d : ArcDiagram, ReadsAs d.toSvg
      (documentAttributes d.dims.width (d.height + d.dims.margin.top + d.dims.margin.bottom))
      (figures d.drawing) := by
  refine ⟨fun width height drawing h => document_readsAs width height h, fun v => ?_,
    fun root dims => ?_, fun d => ?_⟩
  · exact document_readsAs _ _ v.drawing_readable
  · rw [Treemap.toSvg_eq]
    exact document_readsAs _ _ (Treemap.drawing_readable root dims)
  · exact document_readsAs _ _ d.drawing_readable

/-- A group that is left open around a text with signs of markup, and a surplus end. -/
def sampleDrawing : Drawing :=
  [.leave, .enter "g" [("transform", "translate(10,20)"), ("data-name", "</g>\"&lt;")],
    .text "text" [("x", "4")] "a<b>&\"c\"", .element "rect" []]

theorem documents_readBack_sample :
    Readable sampleDrawing ∧
    ReadsAs (document 100 50 sampleDrawing) (documentAttributes 100 50)
      [.group "g" [("transform", "translate(10,20)"), ("data-name", "</g>\"&lt;")]
        [.label "text" [("x", "4")] "a<b>&\"c\"", .shape "rect" []]] :=
  have h : Readable sampleDrawing := by decide
  ⟨h, documents_readBack.1 100 50 sampleDrawing h⟩

end SourceAtlas

import ScriptedViews.Proofs.Render.MacroExpansion

set_option autoImplicit false

/-! # The caller's content in a view that declares attributes

What a view declares and what it is given are variables beside the ones that the code of a place for
content reads. Whatever they are, a render of a plain view writes the caller's content wherever the
view places it, once for each place, and nothing there without content. The one exception is a view
that declares the functions which the code of a place calls: that view hides them from itself. -/

namespace ScriptedViews.Expansion

open Script (Bytes utf8)
open Code (Directive nodesDirectives)
open Code.Directive (joined)

variable {views : Store} {engine : Nat} {base : Engine} {level depth limit levels context line : Nat}
  {h : BridgeHeap} {w : World} {b : Bridge} {text placed : String} {children : Option String}

/-- Whether content that is handed to a render, if there is any, is that of plain nodes, and what
    these stand for. -/
inductive IsContent (views : Store) (levels : Nat) : Option String → String → Prop where
  | nothing : IsContent views levels none ""
  | nodes {caller : View} {nodes : List Node} {text : String}
      (plain : ArePlainNodes caller.namespaces true nodes)
      (stands : expandNodes caller (expandCall views levels caller) none nodes = some text) :
      IsContent views levels
        (some (placing (joined "" (nodesDirectives caller.namespaces caller.uri nodes)))) text

/-- A place for content writes the content once, and nothing without content. -/
theorem IsContent.writes (hcontent : IsContent views levels children placed)
    (hnests : Nests views base limit) (hengine : b.engine = engine) (hlevel : b.depth + 1 = level)
    (hlimit : level + levels ≤ limit + 1) (hdepth : depth + 1 ≤ 2 * level) :
    Writes views engine base context b (contentValue children) level depth
      [Directive.place.stmt line] placed := by
  cases hcontent with
  | nothing => exact writes_place_nil line
  | @nodes caller nodes placed plain stands =>
    have hmax : limit ≤ 191 := hnests.depth
    have hmaxDepth : (2 : Nat) * 193 + 2 < Script.maxDepth := by decide
    have hjoined : Directive.expandAll (expandCall views levels caller) none
        (joined "" (nodesDirectives caller.namespaces caller.uri nodes)) = some placed := by
      rw [Code.expandNodes_eq caller _ none true nodes plain] at stands
      rw [Directive.expandAll_joined, stands]
      simp
    refine writes_place (by omega) (by omega) line rfl ?_
    refine writes_stmts (by omega) 2 (fun origin tag children source hmem line text hcall => ?_)
      (fun _ _ _ hnone => by cases hnone) hjoined
    exact writes_expandCall hnests levels (isPlainCall_of_mem_nodes caller.namespaces caller.uri true
      nodes plain (mem_of_call_mem_joined hmem)) hcall hengine hlevel hlimit hdepth line

/-- The code of a plain view writes what the view stands for around the content that it is given. -/
theorem IsContent.writes_view {v : View} (hcontent : IsContent views levels children placed)
    (hplain : IsPlain v) (hnests : Nests views base limit) (hengine : b.engine = engine)
    (hlevel : b.depth + 1 = level) (hlimit : level + levels ≤ limit + 1)
    (hdepth : depth + 1 ≤ 2 * level)
    (htext : expandNode v (expandCall views levels v) (some placed) v.root.toNode = some text) :
    Writes views engine base context b (contentValue children) level depth
      (Directive.stmts 1 (directivesOf v)) text := by
  have hmax : limit ≤ 191 := hnests.depth
  rw [← expandAll_directivesOf hplain] at htext
  refine writes_stmts (by omega) 1 (fun origin tag children source hmem line text hcall => ?_)
    (fun _ line text hplaced => ?_) htext
  · exact writes_expandCall hnests levels (isPlainCall_of_mem_directivesOf hplain hmem) hcall hengine
      hlevel hlimit (by omega) line
  · cases hplaced
    exact hcontent.writes hnests hengine hlevel hlimit hdepth

/-- A view that declares an attribute, and a page that gives it another value and some content. -/
def declaringViews (declared : String) : ViewStore :=
  [("/box.xview",
      ("<x:view xmlns:x=\"xview\" x:" ++ declared
        ++ "=\"a\"><p><x:process_child_nodes/></p></x:view>").toUTF8),
   ("/page.xview", "<x:view xmlns:x=\"xview\" xmlns:b=\"/\"><b:box>c</b:box></x:view>".toUTF8)]

end ScriptedViews.Expansion

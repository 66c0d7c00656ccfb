import ComponentLang.Proofs.Tree.Remap
import ComponentLang.Proofs.Tree.Walk

/-!
# Trees of one shape

Two trees have one shape if they are the same but for the numbers of their expressions and their
places. Expressions that stand at the same point of both are those that a walk comes to in the same
turn. A change of numbers that takes the numbers of the one, in the order of the walk, to those of
the other makes the one tree into the other, but for the places.
-/
namespace ComponentLang

/-! ## Shapes -/

namespace Remap

/-- All places are made the same. -/
abbrev nowhere : Span → Span := fun _ => .zero

/-- All numbers are made the same. -/
abbrev unnumbered : Nat → Nat := fun _ => 0

end Remap

open Remap (nowhere unnumbered)

/-- The form and the words of an expression. -/
def Expr.shape (e : Expr) : Expr := Remap.expr unnumbered nowhere e

def Stmt.shape (s : Stmt) : Stmt := Remap.stmt unnumbered nowhere s

def Block.shape (b : Block) : Block := Remap.block unnumbered nowhere b

/-- The form and the words of a program. -/
def Program.shape (p : Program) : Program := p.remap unnumbered nowhere

section Change

variable (ν : Nat → Nat) (μ : Span → Span)

/-- A tree keeps its shape when it is numbered otherwise and stands elsewhere. -/
@[simp] theorem Expr.shape_remap (e : Expr) : (Remap.expr ν μ e).shape = e.shape :=
  Remap.expr_expr e

@[simp] theorem Stmt.shape_remap (s : Stmt) : (Remap.stmt ν μ s).shape = s.shape :=
  Remap.stmt_stmt s

@[simp] theorem Block.shape_remap (b : Block) : (Remap.block ν μ b).shape = b.shape :=
  Remap.block_block b

@[simp] theorem Program.shape_remap (p : Program) : (p.remap ν μ).shape = p.shape :=
  Program.remap_remap p

end Change

/-! ## Numbers in the order of a walk -/

namespace TreePart

/-- The numbers of the expressions among some parts, in order. -/
def visited (parts : List TreePart) : List Nat := parts.filterMap number?

variable {parts others : List TreePart}

@[simp] theorem visited_nil : visited [] = [] := rfl

@[simp] theorem visited_append : visited (parts ++ others) = visited parts ++ visited others :=
  List.filterMap_append

@[simp] theorem visited_expr (e : Expr) : visited (.expr e :: parts) = e.id :: visited parts := rfl

@[simp] theorem visited_tag (t : Tag) : visited (.tag t :: parts) = visited parts := rfl

@[simp] theorem visited_attribute (a : Attribute) :
    visited (.attribute a :: parts) = visited parts := rfl

@[simp] theorem visited_stmt (s : Stmt) : visited (.stmt s :: parts) = visited parts := rfl

@[simp] theorem visited_component (c : Component) :
    visited (.component c :: parts) = visited parts := rfl

end TreePart

/-- The numbers of the expressions in an expression, in the order of a walk. -/
def Expr.visited (e : Expr) : List Nat := TreePart.visited (Walk.expr Walk.everywhere e)

/-- There are as many numbers in `ns'` as in `ns`, and a change that takes these to those has the
property `P`. -/
structure Renumbers (ns ns' : List Nat) (P : (Nat → Nat) → Prop) : Prop where
  length : ns'.length = ns.length
  holds : ∀ ν : Nat → Nat, ns.map ν = ns' → P ν

namespace Renumbers

variable {ns ns' ms ms' : List Nat} {P Q : (Nat → Nat) → Prop}

theorem nil (h : ∀ ν, P ν) : Renumbers [] [] P := ⟨rfl, fun ν _ => h ν⟩

theorem append (h : Renumbers ns ns' P) (hlater : Renumbers ms ms' Q) :
    Renumbers (ns ++ ms) (ns' ++ ms') fun ν => P ν ∧ Q ν where
  length := by rw [List.length_append, List.length_append, h.length, hlater.length]
  holds ν hmap := by
    rw [List.map_append] at hmap
    have hlength : (ns.map ν).length = ns'.length := by rw [List.length_map, h.length]
    obtain ⟨hfirst, hrest⟩ := List.append_inj hmap hlength
    exact ⟨h.holds ν hfirst, hlater.holds ν hrest⟩

theorem cons (h : Renumbers ns ns' P) {n n' : Nat} :
    Renumbers (n :: ns) (n' :: ns') fun ν => ν n = n' ∧ P ν where
  length := congrArg (· + 1) h.length
  holds ν hmap := by
    obtain ⟨hfirst, hrest⟩ := List.cons.inj hmap
    exact ⟨hfirst, h.holds ν hrest⟩

theorem mono (h : Renumbers ns ns' P) (hPQ : ∀ ν, P ν → Q ν) : Renumbers ns ns' Q :=
  ⟨h.length, fun ν hmap => hPQ ν (h.holds ν hmap)⟩

/-- An expression comes before what is in it. -/
theorem node (h : Renumbers ns ns' P) (n n' : Node) :
    Renumbers (n.id :: ns) (n'.id :: ns')
      fun ν => Remap.node ν nowhere n = Remap.node id nowhere n' ∧ P ν :=
  h.cons.mono fun _ hν => ⟨congrArg (Node.mk · .zero) hν.1, hν.2⟩

end Renumbers

/-! ## From one tree to another -/

namespace Remap

open TreePart Walk

mutual

theorem renumbers_expr : ∀ {e e' : Expr}, expr unnumbered nowhere e = expr unnumbered nowhere e' →
    Renumbers (visited (Walk.expr everywhere e)) (visited (Walk.expr everywhere e'))
      fun ν => expr ν nowhere e = expr id nowhere e'
  | .literal n value, e', h => by
    cases e' with
    | literal n' value' =>
      simp only [expr, Expr.literal.injEq] at h
      obtain ⟨-, rfl⟩ := h
      refine ((Renumbers.nil fun _ => trivial).node n n').mono ?_
      rintro ν ⟨hid, -⟩
      rw [expr, expr, hid]
    | _ => simp only [expr, reduceCtorEq] at h
  | .identifier n name, e', h => by
    cases e' with
    | identifier n' name' =>
      simp only [expr, Expr.identifier.injEq] at h
      obtain ⟨-, rfl⟩ := h
      refine ((Renumbers.nil fun _ => trivial).node n n').mono ?_
      rintro ν ⟨hid, -⟩
      rw [expr, expr, hid]
    | _ => simp only [expr, reduceCtorEq] at h
  | .valueBinding n name, e', h => by
    cases e' with
    | valueBinding n' name' =>
      simp only [expr, Expr.valueBinding.injEq] at h
      obtain ⟨-, rfl⟩ := h
      refine ((Renumbers.nil fun _ => trivial).node n n').mono ?_
      rintro ν ⟨hid, -⟩
      rw [expr, expr, hid]
    | _ => simp only [expr, reduceCtorEq] at h
  | .binary n left op right, e', h => by
    cases e' with
    | binary n' left' op' right' =>
      simp only [expr, Expr.binary.injEq] at h
      obtain ⟨-, hleft, rfl, hright⟩ := h
      simp only [Walk.expr, enter, if_true, visited_expr, visited_append]
      refine (((renumbers_expr hleft).append (renumbers_expr hright)).node n n').mono ?_
      rintro ν ⟨hid, hl, hr⟩
      rw [expr, expr, hid, hl, hr]
    | _ => simp only [expr, reduceCtorEq] at h
  | .unary n op operand, e', h => by
    cases e' with
    | unary n' op' operand' =>
      simp only [expr, Expr.unary.injEq] at h
      obtain ⟨-, rfl, hoperand⟩ := h
      refine ((renumbers_expr hoperand).node n n').mono ?_
      rintro ν ⟨hid, ho⟩
      rw [expr, expr, hid, ho]
    | _ => simp only [expr, reduceCtorEq] at h
  | .await n operand, e', h => by
    cases e' with
    | await n' operand' =>
      simp only [expr, Expr.await.injEq] at h
      refine ((renumbers_expr h.2).node n n').mono ?_
      rintro ν ⟨hid, ho⟩
      rw [expr, expr, hid, ho]
    | _ => simp only [expr, reduceCtorEq] at h
  | .call n callee arguments, e', h => by
    cases e' with
    | call n' callee' arguments' =>
      simp only [expr, Expr.call.injEq] at h
      obtain ⟨-, hcallee, harguments⟩ := h
      simp only [Walk.expr, enter, if_true, visited_expr, visited_append]
      refine (((renumbers_expr hcallee).append (renumbers_exprs harguments)).node n n').mono ?_
      rintro ν ⟨hid, hc, ha⟩
      rw [expr, expr, hid, hc, ha]
    | _ => simp only [expr, reduceCtorEq] at h
  | .member n object property, e', h => by
    cases e' with
    | member n' object' property' =>
      simp only [expr, Expr.member.injEq] at h
      obtain ⟨-, hobject, rfl⟩ := h
      refine ((renumbers_expr hobject).node n n').mono ?_
      rintro ν ⟨hid, ho⟩
      rw [expr, expr, hid, ho]
    | _ => simp only [expr, reduceCtorEq] at h
  | .index n object key, e', h => by
    cases e' with
    | index n' object' key' =>
      simp only [expr, Expr.index.injEq] at h
      obtain ⟨-, hobject, hkey⟩ := h
      simp only [Walk.expr, enter, if_true, visited_expr, visited_append]
      refine (((renumbers_expr hobject).append (renumbers_expr hkey)).node n n').mono ?_
      rintro ν ⟨hid, ho, hk⟩
      rw [expr, expr, hid, ho, hk]
    | _ => simp only [expr, reduceCtorEq] at h
  | .array n items, e', h => by
    cases e' with
    | array n' items' =>
      simp only [expr, Expr.array.injEq] at h
      refine ((renumbers_exprs h.2).node n n').mono ?_
      rintro ν ⟨hid, hi⟩
      rw [expr, expr, hid, hi]
    | _ => simp only [expr, reduceCtorEq] at h
  | .object n properties, e', h => by
    cases e' with
    | object n' properties' =>
      simp only [expr, Expr.object.injEq] at h
      refine ((renumbers_propertyList h.2).node n n').mono ?_
      rintro ν ⟨hid, hp⟩
      rw [expr, expr, hid, hp]
    | _ => simp only [expr, reduceCtorEq] at h
  | .conditional n test consequent alternate, e', h => by
    cases e' with
    | conditional n' test' consequent' alternate' =>
      simp only [expr, Expr.conditional.injEq] at h
      obtain ⟨-, htest, hconsequent, halternate⟩ := h
      simp only [Walk.expr, enter, if_true, visited_expr, visited_append]
      refine (((renumbers_expr htest).append
        ((renumbers_expr hconsequent).append (renumbers_expr halternate))).node n n').mono ?_
      rintro ν ⟨hid, ht, hc, ha⟩
      rw [expr, expr, hid, ht, hc, ha]
    | _ => simp only [expr, reduceCtorEq] at h
  | .tag n t, e', h => by
    cases e' with
    | tag n' t' =>
      simp only [expr, Expr.tag.injEq] at h
      refine ((renumbers_tag h.2).node n n').mono ?_
      rintro ν ⟨hid, ht⟩
      rw [expr, expr, hid, ht]
    | _ => simp only [expr, reduceCtorEq] at h
termination_by structural a => a

theorem renumbers_exprs : ∀ {es es' : List Expr},
    exprs unnumbered nowhere es = exprs unnumbered nowhere es' →
    Renumbers (visited (Walk.exprs everywhere es)) (visited (Walk.exprs everywhere es'))
      fun ν => exprs ν nowhere es = exprs id nowhere es'
  | [], [], _ => .nil fun _ => rfl
  | [], _ :: _, h => by simp only [exprs, reduceCtorEq] at h
  | _ :: _, [], h => by simp only [exprs, reduceCtorEq] at h
  | e :: rest, e' :: rest', h => by
    simp only [exprs, List.cons.injEq] at h
    simp only [Walk.exprs, visited_append]
    refine ((renumbers_expr h.1).append (renumbers_exprs h.2)).mono ?_
    rintro ν ⟨he, hrest⟩
    rw [exprs, exprs, he, hrest]
termination_by structural a => a

theorem renumbers_propertyList : ∀ {ps ps' : List Property},
    propertyList unnumbered nowhere ps = propertyList unnumbered nowhere ps' →
    Renumbers (visited (Walk.propertyList everywhere ps))
      (visited (Walk.propertyList everywhere ps'))
      fun ν => propertyList ν nowhere ps = propertyList id nowhere ps'
  | [], [], _ => .nil fun _ => rfl
  | [], _ :: _, h => by simp only [propertyList, reduceCtorEq] at h
  | _ :: _, [], h => by simp only [propertyList, reduceCtorEq] at h
  | .named key value :: rest, p' :: rest', h => by
    cases p' with
    | named key' value' =>
      simp only [propertyList, property, List.cons.injEq, Property.named.injEq] at h
      obtain ⟨⟨rfl, hvalue⟩, hrest⟩ := h
      simp only [Walk.propertyList, visited_append]
      refine ((renumbers_expr hvalue).append (renumbers_propertyList hrest)).mono ?_
      rintro ν ⟨hv, hr⟩
      rw [propertyList, propertyList, property, property, hv, hr]
    | computed key' value' =>
      simp only [propertyList, property, List.cons.injEq, reduceCtorEq, false_and] at h
  | .computed key value :: rest, p' :: rest', h => by
    cases p' with
    | named key' value' =>
      simp only [propertyList, property, List.cons.injEq, reduceCtorEq, false_and] at h
    | computed key' value' =>
      simp only [propertyList, property, List.cons.injEq, Property.computed.injEq] at h
      obtain ⟨⟨hkey, hvalue⟩, hrest⟩ := h
      simp only [Walk.propertyList, visited_append]
      refine ((renumbers_expr hkey).append
        ((renumbers_expr hvalue).append (renumbers_propertyList hrest))).mono ?_
      rintro ν ⟨hk, hv, hr⟩
      rw [propertyList, propertyList, property, property, hk, hv, hr]
termination_by structural a => a

theorem renumbers_tag : ∀ {t t' : Tag}, tag unnumbered nowhere t = tag unnumbered nowhere t' →
    Renumbers (visited (Walk.tag everywhere t)) (visited (Walk.tag everywhere t'))
      fun ν => tag ν nowhere t = tag id nowhere t'
  | ⟨name, attributes, styles, children, selfClosing, span⟩,
      ⟨name', attributes', styles', children', selfClosing', span'⟩, h => by
    simp only [tag, Tag.mk.injEq] at h
    obtain ⟨rfl, hattributes, rfl, hchildren, rfl, -⟩ := h
    simp only [Walk.tag, enter, if_true, visited_tag, visited_append]
    refine ((renumbers_attributeList hattributes).append (renumbers_markups hchildren)).mono ?_
    rintro ν ⟨ha, hc⟩
    rw [tag, tag, ha, hc]
termination_by structural a => a

theorem renumbers_attributeList : ∀ {as as' : List Attribute},
    attributeList unnumbered nowhere as = attributeList unnumbered nowhere as' →
    Renumbers (visited (Walk.attributeList everywhere as))
      (visited (Walk.attributeList everywhere as'))
      fun ν => attributeList ν nowhere as = attributeList id nowhere as'
  | [], [], _ => .nil fun _ => rfl
  | [], _ :: _, h => by simp only [attributeList, reduceCtorEq] at h
  | _ :: _, [], h => by simp only [attributeList, reduceCtorEq] at h
  | ⟨name, value, event, span⟩ :: rest, ⟨name', value', event', span'⟩ :: rest', h => by
    simp only [attributeList, tagAttribute, List.cons.injEq, Attribute.mk.injEq] at h
    obtain ⟨⟨rfl, hvalue, rfl, -⟩, hrest⟩ := h
    have hlater := renumbers_attributeList hrest
    match value, value', hvalue with
    | none, none, _ =>
      refine hlater.mono fun ν hr => ?_
      rw [attributeList, attributeList, tagAttribute, tagAttribute, hr]
      rfl
    | some e, some e', he =>
      simp only [expr?, Option.some.injEq] at he
      simp only [Walk.attributeList, enter, if_true, List.cons_append, visited_attribute,
        visited_append]
      refine ((renumbers_expr he).append hlater).mono ?_
      rintro ν ⟨hv, hr⟩
      rw [attributeList, attributeList, tagAttribute, tagAttribute, expr?, expr?, hv, hr]
termination_by structural a => a

theorem renumbers_markup : ∀ {m m' : Markup},
    markup unnumbered nowhere m = markup unnumbered nowhere m' →
    Renumbers (visited (Walk.markup everywhere m)) (visited (Walk.markup everywhere m'))
      fun ν => markup ν nowhere m = markup id nowhere m'
  | .tag t, m', h => by
    cases m' with
    | tag t' =>
      simp only [markup, Markup.tag.injEq] at h
      refine (renumbers_tag h).mono fun ν ht => ?_
      rw [markup, markup, ht]
    | _ => simp only [markup, reduceCtorEq] at h
  | .text content span, m', h => by
    cases m' with
    | text content' span' =>
      simp only [markup, Markup.text.injEq] at h
      obtain ⟨rfl, -⟩ := h
      exact .nil fun _ => rfl
    | _ => simp only [markup, reduceCtorEq] at h
  | .expr e, m', h => by
    cases m' with
    | expr e' =>
      simp only [markup, Markup.expr.injEq] at h
      refine (renumbers_expr h).mono fun ν he => ?_
      rw [markup, markup, he]
    | _ => simp only [markup, reduceCtorEq] at h
termination_by structural a => a

theorem renumbers_markups : ∀ {ms ms' : List Markup},
    markups unnumbered nowhere ms = markups unnumbered nowhere ms' →
    Renumbers (visited (Walk.markups everywhere ms)) (visited (Walk.markups everywhere ms'))
      fun ν => markups ν nowhere ms = markups id nowhere ms'
  | [], [], _ => .nil fun _ => rfl
  | [], _ :: _, h => by simp only [markups, reduceCtorEq] at h
  | _ :: _, [], h => by simp only [markups, reduceCtorEq] at h
  | m :: rest, m' :: rest', h => by
    simp only [markups, List.cons.injEq] at h
    simp only [Walk.markups, visited_append]
    refine ((renumbers_markup h.1).append (renumbers_markups h.2)).mono ?_
    rintro ν ⟨hm, hrest⟩
    rw [markups, markups, hm, hrest]
termination_by structural a => a

end

theorem renumbers_expr? {e e' : Option Expr}
    (h : expr? unnumbered nowhere e = expr? unnumbered nowhere e') :
    Renumbers (visited (Walk.expr? everywhere e)) (visited (Walk.expr? everywhere e'))
      fun ν => expr? ν nowhere e = expr? id nowhere e' := by
  match e, e', h with
  | none, none, _ => exact .nil fun _ => rfl
  | some e, some e', h =>
    simp only [expr?, Option.some.injEq] at h
    refine (renumbers_expr h).mono fun ν he => ?_
    rw [expr?, expr?, he]

theorem renumbers_variableDecl {d d' : VariableDecl}
    (h : variableDecl unnumbered nowhere d = variableDecl unnumbered nowhere d') :
    Renumbers (visited (Walk.expr? everywhere d.init)) (visited (Walk.expr? everywhere d'.init))
      fun ν => variableDecl ν nowhere d = variableDecl id nowhere d' := by
  simp only [variableDecl, VariableDecl.mk.injEq] at h
  obtain ⟨hkind, hname, htype, hinit⟩ := h
  refine (renumbers_expr? hinit).mono fun ν hi => ?_
  rw [variableDecl, variableDecl, hkind, hname, htype, hi]

mutual

theorem renumbers_stmt : ∀ {s s' : Stmt}, stmt unnumbered nowhere s = stmt unnumbered nowhere s' →
    Renumbers (visited (Walk.stmt everywhere s)) (visited (Walk.stmt everywhere s'))
      fun ν => stmt ν nowhere s = stmt id nowhere s'
  | .expression span e, s', h => by
    cases s' with
    | expression span' e' =>
      simp only [stmt, Stmt.expression.injEq] at h
      refine (renumbers_expr h.2).mono fun ν he => ?_
      rw [stmt, stmt, he]
    | _ => simp only [stmt, reduceCtorEq] at h
  | .block b, s', h => by
    cases s' with
    | block b' =>
      simp only [stmt, Stmt.block.injEq] at h
      refine (renumbers_block h).mono fun ν hb => ?_
      rw [stmt, stmt, hb]
    | _ => simp only [stmt, reduceCtorEq] at h
  | .variableDecl span decl, s', h => by
    cases s' with
    | variableDecl span' decl' =>
      simp only [stmt, Stmt.variableDecl.injEq] at h
      refine (renumbers_variableDecl h.2).mono fun ν hd => ?_
      rw [stmt, stmt, hd]
    | _ => simp only [stmt, reduceCtorEq] at h
  | .assignment span target op value, s', h => by
    cases s' with
    | assignment span' target' op' value' =>
      simp only [stmt, Stmt.assignment.injEq] at h
      obtain ⟨-, htarget, rfl, hvalue⟩ := h
      simp only [Walk.stmt, enter, if_true, visited_stmt, visited_append]
      refine ((renumbers_expr htarget).append (renumbers_expr hvalue)).mono ?_
      rintro ν ⟨ht, hv⟩
      rw [stmt, stmt, ht, hv]
    | _ => simp only [stmt, reduceCtorEq] at h
  | .ifElse span test consequent alternate, s', h => by
    cases s' with
    | ifElse span' test' consequent' alternate' =>
      simp only [stmt, Stmt.ifElse.injEq] at h
      obtain ⟨-, htest, hconsequent, halternate⟩ := h
      simp only [Walk.stmt, enter, if_true, visited_stmt, visited_append]
      refine ((renumbers_expr htest).append
        ((renumbers_block hconsequent).append (renumbers_stmt? halternate))).mono ?_
      rintro ν ⟨ht, hc, ha⟩
      rw [stmt, stmt, ht, hc, ha]
    | _ => simp only [stmt, reduceCtorEq] at h
  | .whileLoop span test body, s', h => by
    cases s' with
    | whileLoop span' test' body' =>
      simp only [stmt, Stmt.whileLoop.injEq] at h
      obtain ⟨-, htest, hbody⟩ := h
      simp only [Walk.stmt, enter, if_true, visited_stmt, visited_append]
      refine ((renumbers_expr htest).append (renumbers_block hbody)).mono ?_
      rintro ν ⟨ht, hb⟩
      rw [stmt, stmt, ht, hb]
    | _ => simp only [stmt, reduceCtorEq] at h
  | .forLoop span init test update body, s', h => by
    cases s' with
    | forLoop span' init' test' update' body' =>
      simp only [stmt, Stmt.forLoop.injEq] at h
      obtain ⟨-, hinit, htest, hupdate, hbody⟩ := h
      simp only [Walk.stmt, enter, if_true, visited_stmt, visited_append]
      refine ((renumbers_stmt? hinit).append ((renumbers_expr? htest).append
        ((renumbers_stmt? hupdate).append (renumbers_block hbody)))).mono ?_
      rintro ν ⟨hi, ht, hu, hb⟩
      rw [stmt, stmt, hi, ht, hu, hb]
    | _ => simp only [stmt, reduceCtorEq] at h
  | .forIn span name iterable body, s', h => by
    cases s' with
    | forIn span' name' iterable' body' =>
      simp only [stmt, Stmt.forIn.injEq] at h
      obtain ⟨-, rfl, hiterable, hbody⟩ := h
      simp only [Walk.stmt, enter, if_true, visited_stmt, visited_append]
      refine ((renumbers_expr hiterable).append (renumbers_block hbody)).mono ?_
      rintro ν ⟨hi, hb⟩
      rw [stmt, stmt, hi, hb]
    | _ => simp only [stmt, reduceCtorEq] at h
  | .returnStmt span value, s', h => by
    cases s' with
    | returnStmt span' value' =>
      simp only [stmt, Stmt.returnStmt.injEq] at h
      refine (renumbers_expr? h.2).mono fun ν hv => ?_
      rw [stmt, stmt, hv]
    | _ => simp only [stmt, reduceCtorEq] at h
  | .breakStmt span, s', h => by
    cases s' with
    | breakStmt span' => exact .nil fun _ => rfl
    | _ => simp only [stmt, reduceCtorEq] at h
  | .continueStmt span, s', h => by
    cases s' with
    | continueStmt span' => exact .nil fun _ => rfl
    | _ => simp only [stmt, reduceCtorEq] at h
  | .tryStmt span b handler cleanup, s', h => by
    cases s' with
    | tryStmt span' b' handler' cleanup' =>
      simp only [stmt, Stmt.tryStmt.injEq] at h
      obtain ⟨-, hblock, hhandler, hcleanup⟩ := h
      simp only [Walk.stmt, enter, if_true, visited_stmt, visited_append]
      refine ((renumbers_block hblock).append
        ((renumbers_handler? hhandler).append (renumbers_block? hcleanup))).mono ?_
      rintro ν ⟨hb, hh, hc⟩
      rw [stmt, stmt, hb, hh, hc]
    | _ => simp only [stmt, reduceCtorEq] at h
  | .throwStmt span value, s', h => by
    cases s' with
    | throwStmt span' value' =>
      simp only [stmt, Stmt.throwStmt.injEq] at h
      refine (renumbers_expr h.2).mono fun ν hv => ?_
      rw [stmt, stmt, hv]
    | _ => simp only [stmt, reduceCtorEq] at h
  | .asyncBlock span b handler cleanup, s', h => by
    cases s' with
    | asyncBlock span' b' handler' cleanup' =>
      simp only [stmt, Stmt.asyncBlock.injEq] at h
      obtain ⟨-, hblock, hhandler, hcleanup⟩ := h
      simp only [Walk.stmt, enter, if_true, visited_stmt, visited_append]
      refine ((renumbers_block hblock).append
        ((renumbers_handler? hhandler).append (renumbers_block? hcleanup))).mono ?_
      rintro ν ⟨hb, hh, hc⟩
      rw [stmt, stmt, hb, hh, hc]
    | _ => simp only [stmt, reduceCtorEq] at h
  | .functionDecl span f, s', h => by
    cases s' with
    | functionDecl span' f' =>
      simp only [stmt, Stmt.functionDecl.injEq] at h
      refine (renumbers_function h.2).mono fun ν hf => ?_
      rw [stmt, stmt, hf]
    | _ => simp only [stmt, reduceCtorEq] at h
  | .importDecl span item, s', h => by
    cases s' with
    | importDecl span' item' =>
      simp only [stmt, Stmt.importDecl.injEq] at h
      refine Renumbers.nil fun ν => ?_
      rw [stmt, stmt, h.2]
    | _ => simp only [stmt, reduceCtorEq] at h
  | .exportDecl span item, s', h => by
    cases s' with
    | exportDecl span' item' =>
      simp only [stmt, Stmt.exportDecl.injEq] at h
      refine (renumbers_exportDecl h.2).mono fun ν hi => ?_
      rw [stmt, stmt, hi]
    | _ => simp only [stmt, reduceCtorEq] at h
  | .error span message, s', h => by
    cases s' with
    | error span' message' =>
      simp only [stmt, Stmt.error.injEq] at h
      refine Renumbers.nil fun ν => ?_
      rw [stmt, stmt, h.2]
    | _ => simp only [stmt, reduceCtorEq] at h
termination_by structural a => a

theorem renumbers_stmt? : ∀ {s s' : Option Stmt},
    stmt? unnumbered nowhere s = stmt? unnumbered nowhere s' →
    Renumbers (visited (Walk.stmt? everywhere s)) (visited (Walk.stmt? everywhere s'))
      fun ν => stmt? ν nowhere s = stmt? id nowhere s'
  | none, none, _ => .nil fun _ => rfl
  | none, some _, h => by simp only [stmt?, reduceCtorEq] at h
  | some _, none, h => by simp only [stmt?, reduceCtorEq] at h
  | some s, some s', h => by
    simp only [stmt?, Option.some.injEq] at h
    refine (renumbers_stmt h).mono fun ν hs => ?_
    rw [stmt?, stmt?, hs]
termination_by structural a => a

theorem renumbers_stmts : ∀ {ss ss' : List Stmt},
    stmts unnumbered nowhere ss = stmts unnumbered nowhere ss' →
    Renumbers (visited (Walk.stmts everywhere ss)) (visited (Walk.stmts everywhere ss'))
      fun ν => stmts ν nowhere ss = stmts id nowhere ss'
  | [], [], _ => .nil fun _ => rfl
  | [], _ :: _, h => by simp only [stmts, reduceCtorEq] at h
  | _ :: _, [], h => by simp only [stmts, reduceCtorEq] at h
  | s :: rest, s' :: rest', h => by
    simp only [stmts, List.cons.injEq] at h
    simp only [Walk.stmts, visited_append]
    refine ((renumbers_stmt h.1).append (renumbers_stmts h.2)).mono ?_
    rintro ν ⟨hs, hrest⟩
    rw [stmts, stmts, hs, hrest]
termination_by structural a => a

theorem renumbers_block : ∀ {b b' : Block},
    block unnumbered nowhere b = block unnumbered nowhere b' →
    Renumbers (visited (Walk.block everywhere b)) (visited (Walk.block everywhere b'))
      fun ν => block ν nowhere b = block id nowhere b'
  | ⟨statements, span⟩, ⟨statements', span'⟩, h => by
    simp only [block, Block.mk.injEq] at h
    refine (renumbers_stmts h.1).mono fun ν hs => ?_
    rw [block, block, hs]
termination_by structural a => a

theorem renumbers_block? : ∀ {b b' : Option Block},
    block? unnumbered nowhere b = block? unnumbered nowhere b' →
    Renumbers (visited (Walk.block? everywhere b)) (visited (Walk.block? everywhere b'))
      fun ν => block? ν nowhere b = block? id nowhere b'
  | none, none, _ => .nil fun _ => rfl
  | none, some _, h => by simp only [block?, reduceCtorEq] at h
  | some _, none, h => by simp only [block?, reduceCtorEq] at h
  | some b, some b', h => by
    simp only [block?, Option.some.injEq] at h
    refine (renumbers_block h).mono fun ν hb => ?_
    rw [block?, block?, hb]
termination_by structural a => a

theorem renumbers_handler? : ∀ {clause clause' : Option CatchClause},
    handler? unnumbered nowhere clause = handler? unnumbered nowhere clause' →
    Renumbers (visited (Walk.handler? everywhere clause))
      (visited (Walk.handler? everywhere clause'))
      fun ν => handler? ν nowhere clause = handler? id nowhere clause'
  | none, none, _ => .nil fun _ => rfl
  | none, some _, h => by simp only [handler?, reduceCtorEq] at h
  | some _, none, h => by simp only [handler?, reduceCtorEq] at h
  | some ⟨param, body⟩, some ⟨param', body'⟩, h => by
    simp only [handler?, handler, Option.some.injEq, CatchClause.mk.injEq] at h
    obtain ⟨rfl, hbody⟩ := h
    refine (renumbers_block hbody).mono fun ν hb => ?_
    rw [handler?, handler?, handler, handler, hb]
termination_by structural a => a

theorem renumbers_function : ∀ {f f' : Function},
    function unnumbered nowhere f = function unnumbered nowhere f' →
    Renumbers (visited (Walk.function everywhere f)) (visited (Walk.function everywhere f'))
      fun ν => function ν nowhere f = function id nowhere f'
  | ⟨name, params, returnType, body, isAsync, modifiers, span⟩,
      ⟨name', params', returnType', body', isAsync', modifiers', span'⟩, h => by
    simp only [function, Function.mk.injEq] at h
    obtain ⟨rfl, hparams, hreturn, hbody, rfl, rfl, -⟩ := h
    refine (renumbers_block hbody).mono fun ν hb => ?_
    rw [function, function, hparams, hreturn, hb]
termination_by structural a => a

theorem renumbers_component : ∀ {c c' : Component},
    component unnumbered nowhere c = component unnumbered nowhere c' →
    Renumbers (visited (Walk.component everywhere c)) (visited (Walk.component everywhere c'))
      fun ν => component ν nowhere c = component id nowhere c'
  | ⟨name, modifiers, statements, body, span⟩, ⟨name', modifiers', statements', body', span'⟩, h => by
    simp only [component, Component.mk.injEq] at h
    obtain ⟨rfl, rfl, hstatements, hbody, -⟩ := h
    simp only [Walk.component, enter, if_true, visited_component, visited_append]
    refine ((renumbers_stmts hstatements).append (renumbers_markups hbody)).mono ?_
    rintro ν ⟨hs, hb⟩
    rw [component, component, hs, hb]
termination_by structural a => a

theorem renumbers_exportDecl : ∀ {e e' : Export},
    exportDecl unnumbered nowhere e = exportDecl unnumbered nowhere e' →
    Renumbers (visited (Walk.exportDecl everywhere e)) (visited (Walk.exportDecl everywhere e'))
      fun ν => exportDecl ν nowhere e = exportDecl id nowhere e'
  | ⟨isDefault, .function f, span⟩, ⟨isDefault', item', span'⟩, h => by
    cases item' with
    | function f' =>
      simp only [exportDecl, exportItem, Export.mk.injEq, ExportItem.function.injEq] at h
      obtain ⟨rfl, hf, -⟩ := h
      refine (renumbers_function hf).mono fun ν hf => ?_
      rw [exportDecl, exportDecl, exportItem, exportItem, hf]
    | _ => simp only [exportDecl, exportItem, Export.mk.injEq, reduceCtorEq, false_and, and_false] at h
  | ⟨isDefault, .component c, span⟩, ⟨isDefault', item', span'⟩, h => by
    cases item' with
    | component c' =>
      simp only [exportDecl, exportItem, Export.mk.injEq, ExportItem.component.injEq] at h
      obtain ⟨rfl, hc, -⟩ := h
      refine (renumbers_component hc).mono fun ν hc => ?_
      rw [exportDecl, exportDecl, exportItem, exportItem, hc]
    | _ => simp only [exportDecl, exportItem, Export.mk.injEq, reduceCtorEq, false_and, and_false] at h
  | ⟨isDefault, .statement s, span⟩, ⟨isDefault', item', span'⟩, h => by
    cases item' with
    | statement s' =>
      simp only [exportDecl, exportItem, Export.mk.injEq, ExportItem.statement.injEq] at h
      obtain ⟨rfl, hs, -⟩ := h
      refine (renumbers_stmt hs).mono fun ν hs => ?_
      rw [exportDecl, exportDecl, exportItem, exportItem, hs]
    | _ => simp only [exportDecl, exportItem, Export.mk.injEq, reduceCtorEq, false_and, and_false] at h
termination_by structural a => a

end

/-- Lists of trees of one shape, tree by tree. -/
theorem renumbers_list {α : Type} (change : (Nat → Nat) → (Span → Span) → α → α)
    (walk : α → List TreePart)
    (h : ∀ {a a' : α}, change unnumbered nowhere a = change unnumbered nowhere a' →
      Renumbers (visited (walk a)) (visited (walk a'))
        fun ν => change ν nowhere a = change id nowhere a') {as as' : List α}
    (hshape : as.map (change unnumbered nowhere) = as'.map (change unnumbered nowhere)) :
    Renumbers (visited (as.flatMap walk)) (visited (as'.flatMap walk))
      fun ν => as.map (change ν nowhere) = as'.map (change id nowhere) := by
  induction as generalizing as' with
  | nil =>
      cases List.map_eq_nil_iff.1 hshape.symm
      exact .nil fun _ => rfl
  | cons a rest ih =>
      obtain ⟨a', rest', rfl, ha, hrest⟩ := List.map_eq_cons_iff.1 hshape.symm
      rw [List.flatMap_cons, List.flatMap_cons, visited_append, visited_append]
      refine ((h ha.symm).append (ih hrest.symm)).mono ?_
      rintro ν ⟨ha, hrest⟩
      rw [List.map_cons, List.map_cons, ha, hrest]

end Remap

open Remap in
/-- Programs of one shape have as many expressions, and a change of the numbers makes the one into
the other, but for the places. -/
theorem Program.renumbers {p p' : Program} (h : p.shape = p'.shape) :
    Renumbers p.visited p'.visited fun ν => p.remap ν nowhere = p'.remap id nowhere := by
  simp only [shape, remap, Program.mk.injEq] at h
  obtain ⟨himports, hexports, hfunctions, hcomponents, hstatements⟩ := h
  have hnumbers (q : Program) : q.visited =
      TreePart.visited (q.exports.flatMap (Walk.exportDecl Walk.everywhere)) ++
        (TreePart.visited (q.functions.flatMap (Walk.function Walk.everywhere)) ++
          (TreePart.visited (q.components.flatMap (Walk.component Walk.everywhere)) ++
            TreePart.visited (q.statements.flatMap (Walk.stmt Walk.everywhere)))) := by
    have hnone : TreePart.visited (q.imports.map .importDecl) = [] := by
      simp [TreePart.visited, List.filterMap_map, TreePart.number?, Function.comp_def]
    rw [← TreePart.visited_append, ← TreePart.visited_append, ← TreePart.visited_append,
      ← List.nil_append (TreePart.visited _), ← hnone, ← TreePart.visited_append]
    rfl
  rw [hnumbers, hnumbers]
  refine ((renumbers_list exportDecl _ renumbers_exportDecl hexports).append
    ((renumbers_list function _ renumbers_function hfunctions).append
      ((renumbers_list component _ renumbers_component hcomponents).append
        (renumbers_list stmt _ renumbers_stmt hstatements)))).mono ?_
  rintro ν ⟨he, hf, hc, hs⟩
  rw [remap, remap, himports, he, hf, hc, hs]

end ComponentLang

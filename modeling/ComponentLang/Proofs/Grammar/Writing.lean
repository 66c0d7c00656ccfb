import ComponentLang.Proofs.Grammar.Layers

/-!
# Expressions written as tokens

An expression is written with brackets around every operand that is more than one operand itself.
Further brackets may stand around any expression, and names, numbers and strings may stand
anywhere in the source. However an expression is written, it is read back whole, up to whatever
comes after it that cannot go on with it, and only its nodes are new.
-/
namespace ComponentLang.Grammar

open Parse

/-! ## Written expressions -/

/-- The literal that a token is. -/
def literal? (token : Token) : Option Literal :=
  match token.kind with
  | .number kind => some (.number token.lexeme kind)
  | .string => some (.string token.lexeme)
  | .boolean => some (.bool (token.lexeme == "true"))
  | .null => some .null
  | _ => none

/-- What is written: an expression where any may stand, one that is an operand, a callee or an
object, or a part of a list. -/
inductive Part where
  | whole (e : Expr)
  | operand (e : Expr)
  | items (es : List Expr)
  | property (p : Property)
  | properties (ps : List Property)

/-- The tokens are a way to write the part. -/
inductive Writes : Part → List Token → Prop
  | bare {e r} : Writes (.operand e) r → Writes (.whole e) r
  | group {e r opening closing} : opening.kind = .lparen → Writes (.whole e) r →
      closing.kind = .rparen → Writes (.operand e) (opening :: (r ++ [closing]))
  | literal {node value token} : literal? token = some value →
      Writes (.operand (.literal node value)) [token]
  | identifier {node token} : token.kind = .identifier →
      Writes (.operand (.identifier node token.lexeme)) [token]
  | valueBinding {node token} : token.kind = .valueBinding →
      Writes (.operand (.valueBinding node token.lexeme)) [token]
  | call {node callee arguments r r' opening closing} : Writes (.operand callee) r →
      opening.kind = .lparen → Writes (.items arguments) r' → closing.kind = .rparen →
      Writes (.operand (.call node callee arguments)) (r ++ opening :: (r' ++ [closing]))
  | member {node object r point name} : Writes (.operand object) r → point.kind = .dot →
      isMemberName name.kind = true →
      Writes (.operand (.member node object name.lexeme)) (r ++ [point, name])
  | index {node object index r r' opening closing} : Writes (.operand object) r →
      opening.kind = .lbracket → Writes (.whole index) r' → closing.kind = .rbracket →
      Writes (.operand (.index node object index)) (r ++ opening :: (r' ++ [closing]))
  | array {node items r opening closing} : opening.kind = .lbracket → Writes (.items items) r →
      closing.kind = .rbracket → Writes (.operand (.array node items)) (opening :: (r ++ [closing]))
  | object {node properties r opening closing} : opening.kind = .lbrace →
      Writes (.properties properties) r → closing.kind = .rbrace →
      Writes (.operand (.object node properties)) (opening :: (r ++ [closing]))
  | unary {node op operand r sign} : unaryOp? sign.kind = some op → Writes (.operand operand) r →
      Writes (.whole (.unary node op operand)) (sign :: r)
  | await {node operand r word} : word.kind = .keyword .awaitKw → Writes (.operand operand) r →
      Writes (.whole (.await node operand)) (word :: r)
  | binary {node left op right level r r' sign} : Writes (.operand left) r →
      binaryOp? sign.kind = some (op, level) → Writes (.operand right) r' →
      Writes (.whole (.binary node left op right)) (r ++ sign :: r')
  | conditional {node test consequent alternate r r' r'' question colon} :
      Writes (.operand test) r → question.kind = .question → Writes (.whole consequent) r' →
      colon.kind = .colon → Writes (.whole alternate) r'' →
      Writes (.whole (.conditional node test consequent alternate))
        (r ++ question :: (r' ++ colon :: r''))
  | noItems : Writes (.items []) []
  | lastItem {e r} : Writes (.whole e) r → Writes (.items [e]) r
  | moreItems {e es r r' comma} : Writes (.whole e) r → comma.kind = .comma →
      Writes (.items es) r' → Writes (.items (e :: es)) (r ++ comma :: r')
  | named {value r key colon} : isPropertyKey key.kind = true → colon.kind = .colon →
      Writes (.whole value) r → Writes (.property (.named key.lexeme value)) (key :: colon :: r)
  | computed {key value r r' opening closing colon} : opening.kind = .lbracket →
      Writes (.whole key) r → closing.kind = .rbracket → colon.kind = .colon →
      Writes (.whole value) r' →
      Writes (.property (.computed key value)) (opening :: (r ++ closing :: colon :: r'))
  | noProperties : Writes (.properties []) []
  | lastProperty {p r} : Writes (.property p) r → Writes (.properties [p]) r
  | moreProperties {p ps r r' comma} : Writes (.property p) r → comma.kind = .comma →
      Writes (.properties ps) r' → Writes (.properties (p :: ps)) (r ++ comma :: r')

/-! ## One way to write each -/

def plain (kind : TokenKind) (lexeme : String) : Token := .ofKind kind lexeme .zero

def literalToken : Literal → Token
  | .number text kind => plain (.number kind) text
  | .string value => plain .string value
  | .bool value => plain .boolean (if value then "true" else "false")
  | .null => plain .null "null"

def binaryToken (op : BinaryOp) : Token :=
  let kind : TokenKind := match op with
    | .add => .plus
    | .sub => .minus
    | .mul => .star
    | .div => .slash
    | .mod => .percent
    | .pow => .starStar
    | .eq => .eqEq
    | .notEq => .notEq
    | .lt => .lt
    | .ltEq => .ltEq
    | .gt => .gt
    | .gtEq => .gtEq
    | .and => .andAnd
    | .or => .orOr
  plain kind op.spelling

def unaryToken (op : UnaryOp) : Token :=
  let kind : TokenKind := match op with
    | .not => .bang
    | .neg => .minus
    | .plus => .plus
  plain kind op.spelling

/-- Whether the expression has no parts. -/
def isAtom : Expr → Bool
  | .literal .. | .identifier .. | .valueBinding .. => true
  | _ => false

/-- The tokens of an expression as those of an operand. -/
def wrapped (e : Expr) (tokens : List Token) : List Token :=
  if isAtom e then tokens else plain .lparen "(" :: (tokens ++ [plain .rparen ")"])

mutual

/-- The tokens of an expression without markup, with brackets around every operand, callee and
object that has parts. -/
def render : Expr → List Token
  | .literal _ value => [literalToken value]
  | .identifier _ name => [plain .identifier name]
  | .valueBinding _ name => [plain .valueBinding name]
  | .binary _ left op right =>
    wrapped left (render left) ++ binaryToken op :: wrapped right (render right)
  | .unary _ op operand => unaryToken op :: wrapped operand (render operand)
  | .await _ operand => plain (.keyword .awaitKw) "await" :: wrapped operand (render operand)
  | .call _ callee arguments =>
    wrapped callee (render callee) ++
      plain .lparen "(" :: (renderItems arguments ++ [plain .rparen ")"])
  | .member _ object property =>
    wrapped object (render object) ++ [plain .dot ".", plain .identifier property]
  | .index _ object index =>
    wrapped object (render object) ++
      plain .lbracket "[" :: (render index ++ [plain .rbracket "]"])
  | .array _ items => plain .lbracket "[" :: (renderItems items ++ [plain .rbracket "]"])
  | .object _ properties =>
    plain .lbrace "\x7b" :: (renderProperties properties ++ [plain .rbrace "\x7d"])
  | .conditional _ test consequent alternate =>
    wrapped test (render test) ++ plain .question "?" ::
      (render consequent ++ plain .colon ":" :: render alternate)
  | .tag .. => []

def renderItems : List Expr → List Token
  | [] => []
  | [e] => render e
  | e :: es => render e ++ plain .comma "," :: renderItems es

def renderProperty : Property → List Token
  | .named key value => plain .string key :: plain .colon ":" :: render value
  | .computed key value =>
    plain .lbracket "[" :: (render key ++ plain .rbracket "]" :: plain .colon ":" :: render value)

def renderProperties : List Property → List Token
  | [] => []
  | [p] => renderProperty p
  | p :: ps => renderProperty p ++ plain .comma "," :: renderProperties ps

end

mutual

/-- There is no markup in the expression. -/
def Markless : Expr → Prop
  | .literal .. | .identifier .. | .valueBinding .. => True
  | .binary _ left _ right => Markless left ∧ Markless right
  | .unary _ _ operand => Markless operand
  | .await _ operand => Markless operand
  | .call _ callee arguments => Markless callee ∧ MarklessItems arguments
  | .member _ object _ => Markless object
  | .index _ object index => Markless object ∧ Markless index
  | .array _ items => MarklessItems items
  | .object _ properties => MarklessProperties properties
  | .conditional _ test consequent alternate =>
    Markless test ∧ Markless consequent ∧ Markless alternate
  | .tag .. => False

def MarklessItems : List Expr → Prop
  | [] => True
  | e :: es => Markless e ∧ MarklessItems es

def MarklessProperty : Property → Prop
  | .named _ value => Markless value
  | .computed key value => Markless key ∧ Markless value

def MarklessProperties : List Property → Prop
  | [] => True
  | p :: ps => MarklessProperty p ∧ MarklessProperties ps

end

theorem literal?_literalToken (value : Literal) : literal? (literalToken value) = some value := by
  cases value with
  | bool value => cases value <;> rfl
  | _ => rfl

theorem binaryOp?_binaryToken (op : BinaryOp) :
    ∃ level, binaryOp? (binaryToken op).kind = some (op, level) := by
  cases op <;> exact ⟨_, rfl⟩

theorem unaryOp?_unaryToken (op : UnaryOp) : unaryOp? (unaryToken op).kind = some op := by
  cases op <;> rfl

/-- One way to write an expression, as a whole and as an operand. -/
structure Rendered (e : Expr) : Prop where
  whole : Writes (.whole e) (render e)
  operand : Writes (.operand e) (wrapped e (render e))

theorem rendered_of_operand {e : Expr} (h : Writes (.operand e) (render e)) : Rendered e where
  whole := .bare h
  operand := by
    unfold wrapped
    split
    · exact h
    · exact .group rfl (.bare h) rfl

theorem rendered_of_whole {e : Expr} (hatom : isAtom e = false)
    (h : Writes (.whole e) (render e)) : Rendered e where
  whole := h
  operand := by
    unfold wrapped
    rw [hatom]
    exact .group rfl h rfl

mutual

theorem rendered : ∀ e : Expr, Markless e → Rendered e
  | .literal _ value, _ => rendered_of_operand (.literal (literal?_literalToken value))
  | .identifier _ name, _ => by
    have hkind : (plain .identifier name).kind = .identifier := rfl
    exact rendered_of_operand (.identifier hkind)
  | .valueBinding _ name, _ => by
    have hkind : (plain .valueBinding name).kind = .valueBinding := rfl
    exact rendered_of_operand (.valueBinding hkind)
  | .binary _ left op right, ⟨hleft, hright⟩ => by
    obtain ⟨level, hop⟩ := binaryOp?_binaryToken op
    apply rendered_of_whole rfl
    exact .binary (rendered left hleft).operand hop (rendered right hright).operand
  | .unary _ op operand, h => by
    apply rendered_of_whole rfl
    exact .unary (unaryOp?_unaryToken op) (rendered operand h).operand
  | .await _ operand, h => by
    apply rendered_of_whole rfl
    exact .await rfl (rendered operand h).operand
  | .call _ callee arguments, ⟨hcallee, harguments⟩ => by
    apply rendered_of_operand
    exact .call (rendered callee hcallee).operand rfl (writes_items arguments harguments) rfl
  | .member _ object property, h => by
    have hname : isMemberName (plain .identifier property).kind = true := rfl
    apply rendered_of_operand
    exact .member (rendered object h).operand rfl hname
  | .index _ object index, ⟨hobject, hindex⟩ => by
    apply rendered_of_operand
    exact .index (rendered object hobject).operand rfl (rendered index hindex).whole rfl
  | .array _ items, h => rendered_of_operand (.array rfl (writes_items items h) rfl)
  | .object _ properties, h =>
    rendered_of_operand (.object rfl (writes_properties properties h) rfl)
  | .conditional _ test consequent alternate, ⟨htest, hconsequent, halternate⟩ => by
    apply rendered_of_whole rfl
    exact .conditional (rendered test htest).operand rfl (rendered consequent hconsequent).whole
      rfl (rendered alternate halternate).whole

theorem writes_items : ∀ es : List Expr, MarklessItems es → Writes (.items es) (renderItems es)
  | [], _ => .noItems
  | [e], ⟨he, _⟩ => .lastItem (rendered e he).whole
  | e :: e' :: es, ⟨he, hes⟩ => .moreItems (rendered e he).whole rfl (writes_items (e' :: es) hes)

theorem writes_property :
    ∀ p : Property, MarklessProperty p → Writes (.property p) (renderProperty p)
  | .named key value, h => by
    have hkey : isPropertyKey (plain .string key).kind = true := rfl
    exact .named hkey rfl (rendered value h).whole
  | .computed key value, ⟨hkey, hvalue⟩ =>
    .computed rfl (rendered key hkey).whole rfl rfl (rendered value hvalue).whole

theorem writes_properties :
    ∀ ps : List Property, MarklessProperties ps → Writes (.properties ps) (renderProperties ps)
  | [], _ => .noProperties
  | [p], ⟨hp, _⟩ => .lastProperty (writes_property p hp)
  | p :: p' :: ps, ⟨hp, hps⟩ =>
    .moreProperties (writes_property p hp) rfl (writes_properties (p' :: ps) hps)

end

/-! ## Tokens to come -/

/-- The kind of the first token, or of the end. -/
def headKind : List Token → TokenKind
  | [] => .eof
  | token :: _ => token.kind

/-- Whether a call, a member or an index of what stands before begins with this kind. -/
def startsSuffix : TokenKind → Bool
  | .lparen | .dot | .lbracket => true
  | _ => false

/-- Whether an expression may go on with a token of this kind. -/
def continuesExpression (kind : TokenKind) : Bool :=
  startsSuffix kind || (binaryOp? kind).isSome || kind = .question

/-- `tokens` are what comes, outside the head of a control statement. -/
structure State.Faces (s : State) (tokens : List Token) : Prop where
  rest : s.rest = tokens
  inHead : s.inHead = false

namespace State.Faces

variable {s : State} {token : Token} {tokens : List Token}

theorem kind_eq (h : s.Faces tokens) : s.kind = headKind tokens := by
  unfold State.kind State.peek
  rw [h.rest]
  cases tokens <;> rfl

theorem peek_eq (h : s.Faces (token :: tokens)) : s.peek = token := by
  unfold State.peek
  rw [h.rest]

theorem next (h : s.Faces (token :: tokens)) : s.next.Faces tokens := by
  unfold State.next
  rw [h.rest]
  exact ⟨rfl, h.inHead⟩

theorem numbered (h : s.Faces tokens) (nextId : Nat) : { s with nextId }.Faces tokens :=
  ⟨h.rest, h.inHead⟩

end State.Faces

theorem headKind_append {r : List Token} (h : headKind r ≠ .eof) (rest : List Token) :
    headKind (r ++ rest) = headKind r := by
  cases r with
  | nil => exact absurd rfl h
  | cons token r => rfl

/-- How the tokens of a part begin. -/
def Begins : Part → List Token → Prop
  | .whole _, r | .operand _, r => startsExpression (headKind r) = true
  | .property _, r => headKind r = .lbracket ∨ isPropertyKey (headKind r) = true
  | .items _, _ | .properties _, _ => True

theorem headKind_append_of_starts {r : List Token} (h : startsExpression (headKind r) = true)
    (rest : List Token) : startsExpression (headKind (r ++ rest)) = true := by
  have hne : headKind r ≠ .eof := by
    intro heof
    rw [heof] at h
    cases h
  rw [headKind_append hne]
  exact h

theorem Writes.begins {part : Part} {r : List Token} (h : Writes part r) : Begins part r := by
  induction h with
  | bare _ ih => exact ih
  | group hopen | array hopen | object hopen =>
      simp only [Begins, headKind, hopen]
      rfl
  | literal hvalue =>
      simp only [Begins, headKind]
      revert hvalue
      unfold literal?
      split <;> simp_all [startsExpression]
  | identifier hkind | valueBinding hkind =>
      simp only [Begins, headKind, hkind]
      rfl
  | call _ _ _ _ ih | member _ _ _ ih | index _ _ _ _ ih => exact headKind_append_of_starts ih _
  | binary _ _ _ ih | conditional _ _ _ _ _ ih => exact headKind_append_of_starts ih _
  | unary hop =>
      simp only [Begins, headKind]
      revert hop
      unfold unaryOp?
      split <;> simp_all [startsExpression]
  | await hword =>
      simp only [Begins, headKind, hword]
      rfl
  | noItems | lastItem | moreItems | noProperties | lastProperty | moreProperties => trivial
  | named hkey => exact .inr hkey
  | computed hopen => exact .inl hopen

end ComponentLang.Grammar

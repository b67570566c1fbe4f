import LuaFront.Token.Kind
import Mathlib.Tactic.Lemma

/-!
The grammar of Lua 5.3, as a relation between phrases and the words of token kinds that they
derive. A name before an open parenthesis can be read in two ways: `a = b (c).d()` is one
assignment, or an assignment and a call. Lua always reads the parenthesis as part of the
expression before it. Each phrase is therefore open or closed: an open one ends in an expression
that a parenthesis would extend.
-/

namespace LuaFront

/-- What the grammar speaks of. -/
inductive Phrase where
  | name
  | exp
  | var
  | call
  | prefixExp
  | args
  | table
  | fields
  | field
  | parameters
  | funcBody
  /-- The name of a function, without the method part. -/
  | dotted
  | funcName
  | elseIfs
  | else_
  /-- The last part of a numeric loop's head. -/
  | step
  | semi
  | return_
  | stat
  | block
  /-- One or more, with commas between them. -/
  | list (item : Phrase)
  /-- One or none. -/
  | opt (item : Phrase)

namespace Phrase

/-! ### The tokens of expressions -/

def literals : List TokenKind :=
  [.keyword .nil_, .keyword .true_, .keyword .false_, .number, .string, .symbol .dotDotDot]

def unaryOps : List TokenKind := [.keyword .not_, .symbol .minus, .symbol .pound, .symbol .tilde]

def binaryOps : List TokenKind :=
  [.keyword .or_, .keyword .and_, .symbol .lt, .symbol .gt, .symbol .le, .symbol .ge, .symbol .ne,
   .symbol .eqEq, .symbol .pipe, .symbol .tilde, .symbol .amp, .symbol .shl, .symbol .shr,
   .symbol .dotDot, .symbol .plus, .symbol .minus, .symbol .star, .symbol .slash,
   .symbol .slashSlash, .symbol .percent, .symbol .caret]

def fieldSeps : List TokenKind := [.symbol .comma, .symbol .semi]

/-- A phrase derives a word, which is open or closed. If derivations are greedy, no statement that
begins with a parenthesis comes right after one that the parenthesis would extend. -/
inductive Derives (greedy : Bool) : Phrase → (isOpen : Bool) → List TokenKind → Prop
  | none {p} : Derives greedy (opt p) false []
  | some {p o w} : Derives greedy p o w → Derives greedy (opt p) o w
  | one {p o w} : Derives greedy p o w → Derives greedy (list p) o w
  | more {p o w o' v} :
    Derives greedy p o w → Derives greedy (list p) o' v →
    Derives greedy (list p) o' (w ++ .symbol .comma :: v)
  | name : Derives greedy name false [.ident]
  -- expressions
  | literal {k} : k ∈ literals → Derives greedy exp false [k]
  | function {o w} : Derives greedy funcBody o w →
      Derives greedy exp false (.keyword .function_ :: w)
  | tableExp {o w} : Derives greedy table o w → Derives greedy exp false w
  | prefixed {o w} : Derives greedy prefixExp o w → Derives greedy exp true w
  | binary {o w k o' v} :
    Derives greedy exp o w → k ∈ binaryOps → Derives greedy exp o' v →
    Derives greedy exp o' (w ++ k :: v)
  | unary {k o w} : k ∈ unaryOps → Derives greedy exp o w → Derives greedy exp o (k :: w)
  -- prefix expressions
  | ofVar {o w} : Derives greedy var o w → Derives greedy prefixExp true w
  | ofCall {o w} : Derives greedy call o w → Derives greedy prefixExp true w
  | paren {o w} :
    Derives greedy exp o w →
    Derives greedy prefixExp true (.symbol .openParen :: (w ++ [.symbol .closeParen]))
  | varName : Derives greedy var true [.ident]
  | varField {o w} :
    Derives greedy prefixExp o w → Derives greedy var true (w ++ [.symbol .dot, .ident])
  | varIndex {o w o' v} :
    Derives greedy prefixExp o w → Derives greedy exp o' v →
    Derives greedy var true (w ++ .symbol .openBracket :: (v ++ [.symbol .closeBracket]))
  | callOf {o w o' v} :
    Derives greedy prefixExp o w → Derives greedy args o' v → Derives greedy call true (w ++ v)
  | callMethod {o w o' v} :
    Derives greedy prefixExp o w → Derives greedy args o' v →
    Derives greedy call true (w ++ .symbol .colon :: .ident :: v)
  -- arguments, tables, functions
  | argsParen {o w} :
    Derives greedy (opt (list exp)) o w →
    Derives greedy args false (.symbol .openParen :: (w ++ [.symbol .closeParen]))
  | argsTable {o w} : Derives greedy table o w → Derives greedy args false w
  | argsString : Derives greedy args false [.string]
  | table {o w} :
    Derives greedy (opt fields) o w →
    Derives greedy table false (.symbol .openBrace :: (w ++ [.symbol .closeBrace]))
  | lastField {o w} : Derives greedy field o w → Derives greedy fields o w
  | endedField {o w sep} :
    Derives greedy field o w → sep ∈ fieldSeps → Derives greedy fields false (w ++ [sep])
  | moreFields {o w sep o' v} :
    Derives greedy field o w → sep ∈ fieldSeps → Derives greedy fields o' v →
    Derives greedy fields o' (w ++ sep :: v)
  | positional {o w} : Derives greedy exp o w → Derives greedy field o w
  | named {o w} : Derives greedy exp o w → Derives greedy field o (.ident :: .symbol .eq :: w)
  | keyed {o w o' v} :
    Derives greedy exp o w → Derives greedy exp o' v →
    Derives greedy field o'
      (.symbol .openBracket :: (w ++ .symbol .closeBracket :: .symbol .eq :: v))
  | lastParam : Derives greedy parameters false [.ident]
  | vararg : Derives greedy parameters false [.symbol .dotDotDot]
  | moreParams {o w} :
    Derives greedy parameters o w → Derives greedy parameters o (.ident :: .symbol .comma :: w)
  | funcBody {o w o' b} :
    Derives greedy (opt parameters) o w → Derives greedy block o' b →
    Derives greedy funcBody false
      (.symbol .openParen :: (w ++ .symbol .closeParen :: (b ++ [.keyword .end_])))
  -- statements
  | empty : Derives greedy stat false [.symbol .semi]
  | assign {o w o' v} :
    Derives greedy (list var) o w → Derives greedy (list exp) o' v →
    Derives greedy stat o' (w ++ .symbol .eq :: v)
  | callStat {o w} : Derives greedy call o w → Derives greedy stat true w
  | label : Derives greedy stat false [.symbol .colonColon, .ident, .symbol .colonColon]
  | break_ : Derives greedy stat false [.keyword .break_]
  | goto_ : Derives greedy stat false [.keyword .goto_, .ident]
  | do_ {o b} :
    Derives greedy block o b → Derives greedy stat false (.keyword .do_ :: (b ++ [.keyword .end_]))
  | while_ {o w o' b} :
    Derives greedy exp o w → Derives greedy block o' b →
    Derives greedy stat false
      (.keyword .while_ :: (w ++ .keyword .do_ :: (b ++ [.keyword .end_])))
  | repeat_ {o b o' w} :
    Derives greedy block o b → Derives greedy exp o' w →
    Derives greedy stat o' (.keyword .repeat_ :: (b ++ .keyword .until_ :: w))
  | if_ {o w o' b o₁ v o₂ u} :
    Derives greedy exp o w → Derives greedy block o' b → Derives greedy elseIfs o₁ v →
    Derives greedy (opt else_) o₂ u →
    Derives greedy stat false
      (.keyword .if_ :: (w ++ .keyword .then_ :: (b ++ (v ++ (u ++ [.keyword .end_])))))
  | numericFor {o w o' v o₁ u o₂ b} :
    Derives greedy exp o w → Derives greedy exp o' v → Derives greedy (opt step) o₁ u →
    Derives greedy block o₂ b →
    Derives greedy stat false (.keyword .for_ :: .ident :: .symbol .eq ::
      (w ++ .symbol .comma :: (v ++ (u ++ .keyword .do_ :: (b ++ [.keyword .end_])))))
  | genericFor {o w o' v o₁ b} :
    Derives greedy (list Phrase.name) o w → Derives greedy (list exp) o' v →
    Derives greedy block o₁ b →
    Derives greedy stat false
      (.keyword .for_ :: (w ++ .keyword .in_ :: (v ++ .keyword .do_ :: (b ++ [.keyword .end_]))))
  | functionStat {o w o' v} :
    Derives greedy funcName o w → Derives greedy Phrase.funcBody o' v →
    Derives greedy stat false (.keyword .function_ :: (w ++ v))
  | localFunction {o w} :
    Derives greedy Phrase.funcBody o w →
    Derives greedy stat false (.keyword .local_ :: .keyword .function_ :: .ident :: w)
  | local_ {o w} :
    Derives greedy (list Phrase.name) o w → Derives greedy stat false (.keyword .local_ :: w)
  | localValues {o w o' v} :
    Derives greedy (list Phrase.name) o w → Derives greedy (list exp) o' v →
    Derives greedy stat o' (.keyword .local_ :: (w ++ .symbol .eq :: v))
  | dottedName : Derives greedy dotted false [.ident]
  | dottedField {o w} :
    Derives greedy dotted o w → Derives greedy dotted false (.ident :: .symbol .dot :: w)
  | plainName {o w} : Derives greedy dotted o w → Derives greedy funcName false w
  | methodName {o w} :
    Derives greedy dotted o w → Derives greedy funcName false (w ++ [.symbol .colon, .ident])
  | noElseIf : Derives greedy elseIfs false []
  | elseIf {o w o' b o₁ v} :
    Derives greedy exp o w → Derives greedy block o' b → Derives greedy elseIfs o₁ v →
    Derives greedy elseIfs false (.keyword .elseif_ :: (w ++ .keyword .then_ :: (b ++ v)))
  | else_ {o b} : Derives greedy block o b → Derives greedy else_ false (.keyword .else_ :: b)
  | step {o w} : Derives greedy exp o w → Derives greedy step o (.symbol .comma :: w)
  -- blocks
  | semi : Derives greedy semi false [.symbol .semi]
  | return_ {o w o' v} :
    Derives greedy (opt (list exp)) o w → Derives greedy (opt Phrase.semi) o' v →
    Derives greedy return_ false (.keyword .return_ :: (w ++ v))
  | emptyBlock : Derives greedy block false []
  | lastStat {o w} : Derives greedy Phrase.return_ o w → Derives greedy block false w
  | stats {o w o' v} :
    Derives greedy stat o w → Derives greedy block o' v →
    (greedy = true → o = true → v.head? ≠ Option.some (.symbol .openParen)) →
    Derives greedy block false (w ++ v)

end Phrase

end LuaFront

import ClassSchema.Java.Grammar
import ClassSchema.Java.Lexer

/-!
# Which sources belong to the language

A stack is a sequence of bodies that the rest of a source has to stand for.  The
recognizer holds all stacks that fit what was read so far and moves them over one
token at a time.  When none is left, no sentence of the grammar begins with the
tokens up to this one, and the token is the first that is wrong.

No rule of the grammar begins with itself: each has a rank, and it begins only
with rules of a lower one.  So the stacks behind a token are found by unfolding
rules to a fixed depth.

## Main results

* `Rule.after_unfoldingDepth`: unfolding deeper than the depth that is used finds
  nothing more.
-/

namespace ClassSchema.Java

/-- What the rest of a source has to stand for, part by part. -/
abbrev Stack := List Expr

/-- What is left of a body behind its first token; `ruleAfter` answers for rules. -/
def Expr.after (token : Terminal) (ruleAfter : Rule → List Stack) : Expr → List Stack
  | terminal t => if t = token then [[]] else []
  | rule r => ruleAfter r
  | sequence first second =>
      (first.after token ruleAfter).map (· ++ [second])
        ++ if first.nullable then second.after token ruleAfter else []
  | choice left right => left.after token ruleAfter ++ right.after token ruleAfter
  | optional part => part.after token ruleAfter
  | many part => (part.after token ruleAfter).map (· ++ [many part])

/-- What is left of a rule behind its first token, unfolding rules to a depth. -/
def Rule.after (token : Terminal) : Nat → Rule → List Stack
  | 0, _ => []
  | depth + 1, r => r.body.after token (Rule.after token depth)

/-! ### Rules that begin with each other -/

/-- The rules that a body can begin with. -/
def Expr.heads : Expr → List Rule
  | terminal _ => []
  | rule r => [r]
  | sequence first second => first.heads ++ if first.nullable then second.heads else []
  | choice left right => left.heads ++ right.heads
  | optional part => part.heads
  | many part => part.heads

/-- A rule begins only with rules of a lower rank. -/
def Rule.rank : Rule → Nat
  | compilationUnit => 6
  | packageDeclaration => 2
  | typeDeclaration => 3
  | classDeclaration => 2
  | interfaceDeclaration => 2
  | enumDeclaration => 2
  | recordDeclaration => 2
  | member => 6
  | enumConstants => 2
  | enumConstant => 1
  | fieldDeclaration => 5
  | methodDeclaration => 5
  | initializer => 1
  | compactConstructor => 2
  | modifiers => 1
  | type => 3
  | classType => 2
  | typeSegment => 1
  | typeArgument => 4
  | typeParameter => 1
  | dimension => 1
  | expressionItem => 1
  | _ => 0

/-- One more than the highest rank. -/
def unfoldingDepth : Nat := 7

theorem Rule.rank_lt_unfoldingDepth (r : Rule) : r.rank < unfoldingDepth := by
  cases r <;> decide

theorem Rule.rank_lt_of_mem_heads (r : Rule) : ∀ head ∈ r.body.heads, head.rank < r.rank := by
  cases r <;> decide

private theorem Expr.after_congr {token : Terminal} {f g : Rule → List Stack} {e : Expr}
    (h : ∀ head ∈ e.heads, f head = g head) : e.after token f = e.after token g := by
  induction e with
  | terminal _ => rfl
  | rule r => exact h r (by simp [heads])
  | sequence first second ihFirst ihSecond =>
      simp only [after]
      rw [ihFirst fun head mem => h head (by simp [heads, mem])]
      by_cases hNull : first.nullable = true
      · rw [ihSecond fun head mem => h head (by simp [heads, hNull, mem])]
      · simp [hNull]
  | choice left right ihLeft ihRight =>
      simp only [after]
      rw [ihLeft fun head mem => h head (by simp [heads, mem]),
        ihRight fun head mem => h head (by simp [heads, mem])]
  | optional part ih => exact ih h
  | many part ih =>
      simp only [after]
      rw [ih h]

private theorem Rule.after_eq_of_rank_lt (token : Terminal) {depth deeper : Nat} (r : Rule)
    (h : r.rank < depth) (h' : r.rank < deeper) : r.after token depth = r.after token deeper := by
  induction depth generalizing deeper r with
  | zero => omega
  | succ depth ih =>
      cases deeper with
      | zero => omega
      | succ deeper =>
          refine Expr.after_congr fun head mem => ih head ?_ ?_ <;>
            have := r.rank_lt_of_mem_heads head mem <;> omega

/-- Unfolding further finds nothing more. -/
theorem Rule.after_unfoldingDepth (token : Terminal) (r : Rule) {depth : Nat}
    (h : unfoldingDepth ≤ depth) : r.after token depth = r.after token unfoldingDepth :=
  Rule.after_eq_of_rank_lt token r (Nat.lt_of_lt_of_le r.rank_lt_unfoldingDepth h)
    r.rank_lt_unfoldingDepth

namespace Stack

/-- The stacks behind a token. -/
def after (token : Terminal) : Stack → List Stack
  | [] => []
  | top :: rest =>
      (top.after token (Rule.after token unfoldingDepth)).map (· ++ rest)
        ++ if top.nullable then after token rest else []

/-- Whether nothing more is needed. -/
def isDone (stack : Stack) : Bool := stack.all (·.nullable)

end Stack

/-- The stacks behind a token, each once. -/
def advance (token : Terminal) (current : List Stack) : List Stack :=
  (current.flatMap (·.after token)).eraseDups

/-- The stacks before the first token. -/
def initialStacks : List Stack := [[.rule .compilationUnit]]

/-! ## Syntax errors -/

/-- Why a text is no source. -/
inductive SyntaxError where
  /-- The first token with which no sentence goes on. -/
  | unexpectedToken (token : Token)
  /-- A character at which no token can start, and the token before it. -/
  | unexpectedCharacter (obstacle : Obstacle) (previous : Option Token)
  /-- The text ends too early. -/
  | unexpectedEnd
  deriving DecidableEq, Repr

/-- Moves stacks over tokens; `previous` is the token read last, and the text ends behind the
tokens or at an obstacle. -/
def recognizeFrom (current : List Stack) (previous : Option Token) (obstacle : Option Obstacle) :
    List Token → Except SyntaxError Unit
  | [] =>
      match obstacle with
      | some obstacle => .error (.unexpectedCharacter obstacle previous)
      | none => if current.any Stack.isDone then .ok () else .error .unexpectedEnd
  | token :: rest =>
      match advance token.terminal current with
      | [] => .error (.unexpectedToken token)
      | next => recognizeFrom next (some token) obstacle rest

/-- Accepts the tokens of a source. -/
def recognize (tokens : List Token) (obstacle : Option Obstacle) : Except SyntaxError Unit :=
  recognizeFrom initialStacks none obstacle tokens

end ClassSchema.Java

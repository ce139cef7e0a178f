import LuaSyntax.Parse.Header
import LuaSyntax.Proofs.Operator

/-! The grammar of programs, as a relation between trees and the tokens that spell them.
Every token of a phrase is in exactly one place of a production. Productions of statements
also say which token may stand behind them, so that a run of statements without separators
splits in one way only. -/

namespace LuaSyntax

namespace Grammar

/-- What an expression is on its outside, where no parentheses enclose it. Names, literals,
calls and whatever stands in parentheses are closed. -/
inductive Shape where
  | closed
  | unary
  | binary (operator : Kind)

namespace Shape

/-- Shapes that may stand to the left of a binary operator: an operator of the same level
groups to the left unless it is right-associative. -/
def LeftOf (k : Kind) : Shape → Prop
  | closed => True
  | unary => Precedence.of k ≤ .unary
  | binary j =>
    Precedence.of k < .of j ∨ Precedence.of k = .of j ∧ k.isRightAssociative = false

def RightOf (k : Kind) : Shape → Prop
  | closed | unary => True
  | binary j =>
    Precedence.of k < .of j ∨ Precedence.of k = .of j ∧ k.isRightAssociative = true

def Above (level : Precedence) : Shape → Prop
  | closed | unary => True
  | binary j => level < .of j

end Shape

mutual

/-- The tokens spell the expression, which has the shape on its outside. -/
inductive Phrase : Expr Token → List Token → Shape → Prop
  | literal {t e} (h : Expr.ofToken? t = some (.ok e)) : Phrase e [t] .closed
  | group {lp rp e ts s} (hl : lp.kind = .leftParen) (he : Phrase e ts s)
      (hr : rp.kind = .rightParen) : Phrase e (lp :: (ts ++ [rp])) .closed
  | unary {op e ts s} (hop : op.kind.isUnary = true) (he : Phrase e ts s)
      (hs : s.Above .unary) : Phrase (.unary op op.value e) (op :: ts) .unary
  | binary {op l ls sl r rs sr} (hop : op.kind.isBinary = true) (hl : Phrase l ls sl)
      (hsl : sl.LeftOf op.kind) (hr : Phrase r rs sr) (hsr : sr.RightOf op.kind) :
      Phrase (.binary op op.value l r) (ls ++ op :: rs) (.binary op.kind)
  | call {op n ns s es us} (hn : Phrase (.name n) ns s) (hop : op.kind = .leftParen)
      (hes : Arguments es us) : Phrase (.call op n es) (ns ++ op :: us) .closed

inductive Arguments : List (Expr Token) → List Token → Prop
  | none {rp} (h : rp.kind = .rightParen) : Arguments [] [rp]
  | some {e ts s es us} (he : Phrase e ts s) (hes : MoreArguments es us) :
      Arguments (e :: es) (ts ++ us)

inductive MoreArguments : List (Expr Token) → List Token → Prop
  | close {rp} (h : rp.kind = .rightParen) : MoreArguments [] [rp]
  | comma {c e ts s es us} (hc : c.kind = .comma) (he : Phrase e ts s)
      (hes : MoreArguments es us) : MoreArguments (e :: es) (c :: (ts ++ us))

end

def Expression (e : Expr Token) (ts : List Token) : Prop := ∃ s, Phrase e ts s

inductive MoreParameters (rp : Token) : List (Name Token) → List Token → Prop
  | close (h : rp.kind = .rightParen) : MoreParameters rp [] [rp]
  | comma {c p ps us} (hc : c.kind = .comma) (hp : p.kind = .identifier)
      (hps : MoreParameters rp ps us) : MoreParameters rp (.ofToken p :: ps) (c :: p :: us)

inductive Parameters (rp : Token) : List (Name Token) → List Token → Prop
  | none (h : rp.kind = .rightParen) : Parameters rp [] [rp]
  | some {p ps us} (hp : p.kind = .identifier) (hps : MoreParameters rp ps us) :
      Parameters rp (.ofToken p :: ps) (p :: us)

/-- The step of a `for` whose block `opener` opens. Without a spelling it is one. -/
inductive Step (opener : Token) : Expr Token → List Token → Prop
  | given {c e ts} (hc : c.kind = .comma) (he : Expression e ts) : Step opener e (c :: ts)
  | omitted : Step opener (Parse.defaultStep opener.start) []

inductive ForHead : Parse.ForHeader → List Token → Prop
  | mk {n eq i is c l ls st sts d} (hn : n.kind = .identifier) (heq : eq.kind = .assign)
      (hi : Expression i is) (hc : c.kind = .comma) (hl : Expression l ls) (hst : Step d st sts)
      (hd : d.kind = .kwDo) :
      ForHead ⟨⟨n, .ofToken n, i, false⟩, l, st, d⟩ (n :: eq :: (is ++ c :: (ls ++ (sts ++ [d]))))

inductive FunctionHead : Parse.FunctionHeader → List Token → Prop
  | mk {n lp ps rp us} (hn : n.kind = .identifier) (hlp : lp.kind = .leftParen)
      (hps : Parameters rp ps us) : FunctionHead ⟨n, ps, rp⟩ (n :: lp :: us)

def ahead (ts : List Token) (next : Option Kind) : Option Kind :=
  (ts.head?.map Token.kind).or next

/-- No operator that binds tighter than the level is next. -/
def Stops (level : Precedence) (next : Option Kind) : Prop :=
  ∀ k ∈ next, ¬level < Precedence.of k

def EndsStatement (next : Option Kind) : Prop :=
  ∀ k ∈ next, k.isSeparator = true ∨ k.isBlockEnd = true

def StartsBare (t : Token) (next : Option Kind) : Prop :=
  t.kind.startsStmt = false ∨
    t.kind = .identifier ∧ next ≠ some .assign ∧ next ≠ some .leftParen

mutual

/-- The tokens spell the statement, before a token of kind `next`. -/
inductive Statement : Stmt Token → List Token → Option Kind → Prop
  | expression {t e ts next} (he : Expression e (t :: ts)) (ht : StartsBare t (ahead ts next))
      (hnext : Stops .lowest next) : Statement (.expression t e) (t :: ts) next
  | call {t op es us next} (ht : t.kind = .identifier) (hop : op.kind = .leftParen)
      (hes : Arguments es us) :
      Statement (.expression t (.call op (.ofToken t) es)) (t :: op :: us) next
  | assign {t eq e ts next} (ht : t.kind = .identifier) (heq : eq.kind = .assign)
      (he : Expression e ts) (hnext : Stops .lowest next) :
      Statement (.assign ⟨t, .ofToken t, e, false⟩) (t :: eq :: ts) next
  | localAssign {t n eq e ts next} (ht : t.kind = .kwLocal) (hn : n.kind = .identifier)
      (heq : eq.kind = .assign) (he : Expression e ts) (hnext : Stops .lowest next) :
      Statement (.assign ⟨t, .ofToken n, e, true⟩) (t :: n :: eq :: ts) next
  | ret {t next} (ht : t.kind = .kwReturn) (hnext : EndsStatement next) :
      Statement (.ret t none) [t] next
  | retValue {t e ts next} (ht : t.kind = .kwReturn) (he : Expression e ts)
      (hnext : EndsStatement next) : Statement (.ret t (some e)) (t :: ts) next
  | cond {t s ts next} (ht : t.kind = .kwIf) (hs : Branch t s ts) : Statement s (t :: ts) next
  | whileLoop {t c cs d ss bs e next} (ht : t.kind = .kwWhile) (hc : Expression c cs)
      (hd : d.kind = .kwDo) (hss : Statements ss bs (some .kwEnd)) (he : e.kind = .kwEnd) :
      Statement (.whileLoop t c ⟨d, ss⟩) (t :: (cs ++ d :: (bs ++ [e]))) next
  | forLoop {t h hs ss bs e next} (ht : t.kind = .kwFor) (hh : ForHead h hs)
      (hss : Statements ss bs (some .kwEnd)) (he : e.kind = .kwEnd) :
      Statement (.forLoop t h.init h.limit h.step ⟨h.opener, ss⟩) (t :: (hs ++ (bs ++ [e]))) next
  | repeatLoop {t ss bs u c cs next} (ht : t.kind = .kwRepeat)
      (hss : Statements ss bs (some .kwUntil)) (hu : u.kind = .kwUntil) (hc : Expression c cs)
      (hnext : Stops .lowest next) :
      Statement (.repeatLoop t ⟨t, ss⟩ c) (t :: (bs ++ u :: cs)) next
  | function {t h hs ss bs e next} (ht : t.kind = .kwFunction) (hh : FunctionHead h hs)
      (hss : Statements ss bs (some .kwEnd)) (he : e.kind = .kwEnd) :
      Statement (.function t (.ofToken h.name) h.parameters ⟨h.opener, ss⟩)
        (t :: (hs ++ (bs ++ [e]))) next

inductive Statements : List (Stmt Token) → List Token → Option Kind → Prop
  | nil {next} : Statements [] [] next
  | separator {t ss ts next} (ht : t.kind.isSeparator = true) (hss : Statements ss ts next) :
      Statements ss (t :: ts) next
  | cons {s ts ss us next} (hs : Statement s ts (ahead us next)) (hss : Statements ss us next) :
      Statements (s :: ss) (ts ++ us) next

inductive Branch : Token → Stmt Token → List Token → Prop
  | mk {t c cs th ss bs a us} (hc : Expression c cs) (hth : th.kind = .kwThen)
      (hss : Statements ss bs (ahead us none)) (ha : Alternative a us) :
      Branch t (.cond t c ⟨th, ss⟩ a) (cs ++ th :: (bs ++ us))

inductive Alternative : Option (Block Token (Stmt Token)) → List Token → Prop
  | none {e} (he : e.kind = .kwEnd) : Alternative none [e]
  | block {t ss bs e} (ht : t.kind = .kwElse) (hss : Statements ss bs (some .kwEnd))
      (he : e.kind = .kwEnd) : Alternative (some ⟨t, ss⟩) (t :: (bs ++ [e]))
  | branch {t s ts} (ht : t.kind = .kwElseif) (hs : Branch t s ts) :
      Alternative (some ⟨t, [s]⟩) (t :: ts)

end

def Sentence (p : Program Token) (ts : List Token) : Prop := Statements p ts none

/-! What is next. -/

@[simp] theorem ahead_nil (next : Option Kind) : ahead [] next = next := rfl

@[simp] theorem ahead_cons (t : Token) (ts : List Token) (next : Option Kind) :
    ahead (t :: ts) next = some t.kind := rfl

@[simp] theorem ahead_append (ts us : List Token) (next : Option Kind) :
    ahead (ts ++ us) next = ahead ts (ahead us next) := by
  cases ts <;> rfl

@[simp] theorem stops_none (level : Precedence) : Stops level none := by
  rintro k ⟨⟩

@[simp] theorem stops_some {level : Precedence} {k : Kind} :
    Stops level (some k) ↔ ¬level < Precedence.of k := by
  simp [Stops]

/-- Nothing ahead is taken by the last operand of the shape. -/
def Shape.Ends (next : Option Kind) : Shape → Prop
  | closed => True
  | unary => Stops .unary next
  | binary j => Stops j.operandLevel next

theorem Shape.rightOf_iff {k : Kind} (hk : k.isBinary = true) (s : Shape) :
    s.RightOf k ↔ s.Above k.operandLevel := by
  cases s with
  | closed | unary => exact Iff.rfl
  | binary j => exact (Kind.operandLevel_lt_iff hk).symm

theorem Shape.above_lowest {e : Expr Token} {ts : List Token} {s : Shape} (h : Phrase e ts s) :
    s.Above .lowest := by
  cases h with
  | binary hop hl hsl hr hsr => exact ((Kind.isBinary_iff _).1 hop).1
  | _ => trivial

/-- The shape of a phrase may stand before an operator just if it takes nothing of it. -/
theorem Phrase.leftOf_iff {e : Expr Token} {ts : List Token} {s : Shape} (h : Phrase e ts s)
    (k : Kind) : s.LeftOf k ↔ s.Ends (some k) := by
  cases h with
  | literal | group | call => exact Iff.rfl
  | unary => exact (stops_some.trans Nat.not_lt).symm
  | @binary op l ls sl r rs sr hop hl hsl hr hsr =>
    change _ ↔ Stops op.kind.operandLevel (some k)
    rw [stops_some, Kind.operandLevel_lt_iff hop]
    change Precedence.rank _ < Precedence.rank _ ∨ _ ↔ ¬(Precedence.rank _ < Precedence.rank _ ∨ _)
    by_cases heq : Precedence.of k = .of op.kind
    · have hassoc := Kind.isRightAssociative_congr heq
      simp [heq, hassoc]
    · have hne : (Precedence.of k).rank ≠ (Precedence.of op.kind).rank :=
        fun hr => heq (Precedence.rank_injective hr)
      simp only [heq, Ne.symm heq, false_and, or_false]
      omega

theorem endsStmt_iff (ts : List Token) :
    Parse.endsStmt ts = true ↔ EndsStatement (ahead ts none) := by
  cases ts <;> simp [Parse.endsStmt, EndsStatement]

/-! First tokens. -/

theorem startsExpr_of_ofToken? {t : Token} {e : Except Problem (Expr Token)}
    (h : Expr.ofToken? t = some e) : t.kind.startsExpr = true := by
  unfold Expr.ofToken? at h
  cases hk : t.kind <;> simp_all [Kind.startsExpr]

theorem Phrase.exists_cons : ∀ {e : Expr Token} {ts : List Token} {s : Shape}, Phrase e ts s →
    ∃ t us, ts = t :: us ∧ t.kind.startsExpr = true
  | _, _, _, .literal h => ⟨_, _, rfl, startsExpr_of_ofToken? h⟩
  | _, _, _, .group hl _ _ => ⟨_, _, rfl, by rw [hl]; rfl⟩
  | _, _, _, .unary hop _ _ => ⟨_, _, rfl, Kind.startsExpr_of_isUnary hop⟩
  | _, _, _, .binary _ hl _ _ _ => by
    obtain ⟨t, us, rfl, ht⟩ := hl.exists_cons
    exact ⟨t, _, rfl, ht⟩
  | _, _, _, .call hn _ _ => by
    obtain ⟨t, us, rfl, ht⟩ := hn.exists_cons
    exact ⟨t, _, rfl, ht⟩

theorem Statement.exists_cons {s : Stmt Token} {ts : List Token} {next : Option Kind}
    (h : Statement s ts next) :
    ∃ t us, ts = t :: us ∧ t.kind.isSeparator = false ∧ t.kind.isBlockEnd = false := by
  cases h with
  | expression he ht hnext =>
    obtain ⟨s, he⟩ := he
    obtain ⟨t, us, hts, hstart⟩ := he.exists_cons
    refine ⟨t, us, hts, ?_⟩
    cases hk : t.kind <;> simp_all [Kind.startsExpr, Kind.isSeparator, Kind.isBlockEnd]
  | call ht | assign ht | localAssign ht | ret ht | retValue ht | cond ht | whileLoop ht
  | forLoop ht | repeatLoop ht | function ht =>
    exact ⟨_, _, rfl, by rw [ht]; exact ⟨rfl, rfl⟩⟩

theorem Alternative.exists_cons {a : Option (Block Token (Stmt Token))} {ts : List Token}
    (h : Alternative a ts) : ∃ t us, ts = t :: us ∧ t.kind.isBlockEnd = true := by
  cases h with
  | none ht | block ht | branch ht => exact ⟨_, _, rfl, by rw [ht]; rfl⟩

end Grammar

end LuaSyntax

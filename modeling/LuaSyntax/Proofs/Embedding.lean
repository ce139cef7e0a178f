import LuaSyntax.Proofs.Grammar
import LuaSyntax.Proofs.Marks
import LuaSyntax.Proofs.Outcome

/-! A source as part of another one. Its tokens stand at other places there, and further tokens
may stand behind them. Every reader does in the part what it does in the whole, as long as the
part ends with a line end, which no phrase goes beyond. Only a block that the part leaves open
would go on behind it, and such a block has a diagnostic at the end of the part. -/

namespace LuaSyntax

/-- Where the tokens of a source that ends at `stop` are found in another one, which ends at
`outer`, and what stands behind them there. -/
structure Embedding where
  place : Position → Position
  stop : Position
  outer : Position
  behind : List Token

def EndsLine (ts : List Token) : Prop := ts.getLast?.map Token.kind = some .newline

theorem EndsLine.tail {t : Token} {ts : List Token} (h : EndsLine (t :: ts))
    (ht : t.kind ≠ .newline) : EndsLine ts := by
  cases ts with
  | nil => exact absurd (Option.some.inj h) ht
  | cons u us => rwa [EndsLine, List.getLast?_cons_cons] at h

namespace Embedding

variable (m : Embedding)

def mark (t : Token) : Token := t.move m.place

def tokens (ts : List Token) : List Token := ts.map m.mark ++ m.behind

@[simp] theorem tokens_cons (t : Token) (ts : List Token) :
    m.tokens (t :: ts) = m.mark t :: m.tokens ts := rfl

@[simp] theorem mark_kind (t : Token) : (m.mark t).kind = t.kind := rfl

def Closed : Prop := m.behind = [] ∧ m.outer = m.place m.stop

/-- Readers of the tokens cannot tell that others follow. -/
def Fits (ts : List Token) : Prop := m.Closed ∨ EndsLine ts

variable {m}

theorem Fits.closed (h : m.Fits []) : m.Closed := by
  rcases h with h | h
  · exact h
  · cases h

theorem Fits.tokens_nil (h : m.Fits []) : m.tokens [] = [] := h.closed.1

theorem Fits.tail {t : Token} {ts : List Token} (h : m.Fits (t :: ts)) (ht : t.kind ≠ .newline) :
    m.Fits ts := by
  rcases h with h | h
  · exact .inl h
  · exact .inr (h.tail ht)

theorem Fits.tail_of_kind {t : Token} {ts : List Token} {k : Kind} (h : m.Fits (t :: ts))
    (ht : t.kind = k) (hk : k ≠ .newline) : m.Fits ts := h.tail (by rwa [ht])

end Embedding

/-! Outcomes of the part and of the whole. -/

def Halt.rest : Halt → List Token
  | on ts | before ts => ts

def Halt.map (f : List Token → List Token) : Halt → Halt
  | on ts => on (f ts)
  | before ts => before (f ts)

namespace Outcome

variable {α β γ δ : Type} {m : Embedding}

def rest : Outcome α → List Token
  | done _ ts => ts
  | failed _ halt => halt.rest

def embed (m : Embedding) (f : α → β) : Outcome α → Outcome β
  | done a ts => done (f a) (m.tokens ts)
  | failed d halt => failed (d.move m.place) (halt.map m.tokens)

/-- The part has the outcome `o` and the whole has the same, which is `o'`. -/
def Embeds (m : Embedding) (f : α → β) (o : Outcome α) (o' : Outcome β) : Prop :=
  o' = o.embed m f ∧ m.Fits o.rest

theorem embeds_done {f : α → β} {a : α} {ts : List Token} (h : m.Fits ts) :
    (done a ts).Embeds m f (done (f a) (m.tokens ts)) := ⟨rfl, h⟩

theorem embeds_on {f : α → β} {p : Problem} {q : Position} {ts : List Token} (h : m.Fits ts) :
    (failed ⟨p, q⟩ (.on ts)).Embeds m f (failed ⟨p, m.place q⟩ (.on (m.tokens ts))) := ⟨rfl, h⟩

theorem embeds_before {f : α → β} {p : Problem} {q : Position} {ts : List Token}
    (h : m.Fits ts) :
    (failed ⟨p, q⟩ (.before ts)).Embeds m f (failed ⟨p, m.place q⟩ (.before (m.tokens ts))) :=
  ⟨rfl, h⟩

theorem embeds_at_stop {f : α → β} {p p' : Problem} {halt : Halt} (h : m.Fits halt.rest)
    (hhalt : halt.rest = []) (hp : p' = p) :
    (failed ⟨p, m.stop⟩ halt).Embeds m f (failed ⟨p', m.outer⟩ halt) := by
  subst hp
  have hnil : m.Fits [] := by rwa [hhalt] at h
  refine ⟨?_, h⟩
  rw [hnil.closed.2]
  cases halt with
  | on ts =>
    obtain rfl : ts = [] := hhalt
    rw [embed, Halt.map, hnil.tokens_nil]
    rfl
  | before ts =>
    obtain rfl : ts = [] := hhalt
    rw [embed, Halt.map, hnil.tokens_nil]
    rfl

theorem Embeds.map {f : α → β} {o : Outcome α} {o' : Outcome β} (h : o.Embeds m f o')
    {g : α → γ} {g' : β → δ} {k : γ → δ} (hg : ∀ a, g' (f a) = k (g a)) :
    (o.map g).Embeds m k (o'.map g') := by
  obtain ⟨rfl, hfits⟩ := h
  cases o with
  | done a ts => exact ⟨congrArg (done · (m.tokens ts)) (hg a), hfits⟩
  | failed d halt => exact ⟨rfl, hfits⟩

theorem Embeds.bind {f : α → β} {o : Outcome α} {o' : Outcome β} (h : o.Embeds m f o')
    {g : α → List Token → Outcome γ} {g' : β → List Token → Outcome δ} {k : γ → δ}
    (hg : ∀ a ts, o = done a ts → m.Fits ts → (g a ts).Embeds m k (g' (f a) (m.tokens ts))) :
    (o.bind g).Embeds m k (o'.bind g') := by
  obtain ⟨rfl, hfits⟩ := h
  cases o with
  | done a ts => exact hg a ts rfl hfits
  | failed d halt => exact ⟨rfl, hfits⟩

end Outcome

open Outcome

variable (m : Embedding)

theorem expect_embeds {kind : Kind} (hkind : kind ≠ .newline) {problem problem' : Token → Problem}
    (hproblem : ∀ t, problem' (m.mark t) = problem t) {ts : List Token} (h : m.Fits ts) :
    (expect m.stop kind problem ts).outcome.Embeds m m.mark
      (expect m.outer kind problem' (m.tokens ts)).outcome := by
  cases ts with
  | nil =>
    rw [h.tokens_nil, outcome_expect_nil, outcome_expect_nil]
    refine embeds_at_stop h rfl ?_
    rw [h.closed.2]
    exact hproblem (.eof m.stop)
  | cons t us =>
    rw [m.tokens_cons, outcome_expect_cons, outcome_expect_cons, m.mark_kind]
    split
    · next ht => exact embeds_done (h.tail_of_kind ht hkind)
    · rw [hproblem]
      exact embeds_before h

theorem expectHere_embeds {kind : Kind} (hkind : kind ≠ .newline)
    {problem problem' : Token → Problem} (hproblem : ∀ t, problem' (m.mark t) = problem t)
    {ts : List Token} (h : m.Fits ts) :
    (expectHere m.stop kind problem ts).outcome.Embeds m m.mark
      (expectHere m.outer kind problem' (m.tokens ts)).outcome := by
  cases ts with
  | nil =>
    rw [h.tokens_nil, outcome_expectHere_nil, outcome_expectHere_nil]
    refine embeds_at_stop h rfl ?_
    rw [h.closed.2]
    exact hproblem (.eof m.stop)
  | cons t us =>
    rw [m.tokens_cons, outcome_expectHere_cons, outcome_expectHere_cons, m.mark_kind]
    split
    · next ht => exact embeds_done (h.tail_of_kind ht hkind)
    · rw [hproblem]
      exact embeds_on h

namespace Parse

theorem notCallable_mark (e : Expr Token) : notCallable (e.map m.mark) = notCallable e := by
  rw [notCallable, show e.map m.mark = e.map (Token.move m.place) from rfl, Expr.render_move]
  rfl

theorem map_mark_ne_name {e : Expr Token} (h : ∀ n, e ≠ .name n) (n : Name Token) :
    e.map m.mark ≠ .name n := by
  cases e with
  | name x => exact absurd rfl (h x)
  | _ => nofun

/-! Expressions. -/

mutual

theorem expr_embeds (level : Precedence) (ts : List Token) (h : m.Fits ts) :
    (expr m.stop level ts).outcome.Embeds m (Expr.map m.mark)
      (expr m.outer level (m.tokens ts)).outcome := by
  match ts with
  | [] =>
    rw [h.tokens_nil, outcome_expr_nil, outcome_expr_nil]
    exact embeds_at_stop h rfl rfl
  | t :: us =>
    rw [m.tokens_cons, outcome_expr_cons, outcome_expr_cons]
    exact exprFrom_embeds level t us h
termination_by 4 * ts.length

theorem exprFrom_embeds (level : Precedence) (t : Token) (us : List Token)
    (h : m.Fits (t :: us)) :
    (exprFrom m.stop level t us).outcome.Embeds m (Expr.map m.mark)
      (exprFrom m.outer level (m.mark t) (m.tokens us)).outcome := by
  rw [outcome_exprFrom, outcome_exprFrom]
  refine (operand_embeds t us h).bind ?_
  intro left vs hdone hvs
  have hlen := (Attempt.suffix_of_outcome hdone).length_le
  exact extend_embeds level left vs hvs
termination_by 4 * us.length + 3

theorem operand_embeds (t : Token) (us : List Token) (h : m.Fits (t :: us)) :
    (operand m.stop t us).outcome.Embeds m (Expr.map m.mark)
      (operand m.outer (m.mark t) (m.tokens us)).outcome := by
  rcases operand_cases t with ⟨e, hlit⟩ | hun | hparen | hnone
  · have hlit' : Expr.ofToken? (m.mark t) = some (e.map (Expr.map m.mark)) := by
      rw [Embedding.mark, Expr.ofToken?_move, hlit]
      rfl
    rw [outcome_operand_of_literal _ us hlit, outcome_operand_of_literal _ _ hlit']
    cases e with
    | error p => exact embeds_on h
    | ok e =>
      refine embeds_done (h.tail ?_)
      have hstart := Grammar.startsExpr_of_ofToken? hlit
      intro hk
      rw [hk] at hstart
      exact absurd hstart (by decide)
  · have hus : m.Fits us := by
      refine h.tail ?_
      intro hk
      rw [hk] at hun
      exact absurd hun (by decide)
    rw [outcome_operand_of_isUnary _ us hun, outcome_operand_of_isUnary (t := m.mark t) _ _ hun,
      outcome_unary, outcome_unary]
    exact (expr_embeds .unary us hus).map fun e => rfl
  · rw [outcome_operand_of_leftParen _ us hparen,
      outcome_operand_of_leftParen (t := m.mark t) _ _ hparen, outcome_grouped, outcome_grouped]
    refine (expr_embeds .lowest us (h.tail_of_kind hparen (by decide))).bind ?_
    intro e vs _ hvs
    exact (expect_embeds m (by decide) (fun _ => rfl) hvs).map fun _ => rfl
  · rw [outcome_operand_of_not_startsExpr _ us hnone,
      outcome_operand_of_not_startsExpr (t := m.mark t) _ _ hnone]
    exact embeds_on h
termination_by 4 * us.length + 2

theorem extend_embeds (level : Precedence) (left : Expr Token) (ts : List Token)
    (h : m.Fits ts) :
    (extend m.stop level left ts).outcome.Embeds m (Expr.map m.mark)
      (extend m.outer level (left.map m.mark) (m.tokens ts)).outcome := by
  match ts with
  | [] =>
    have hdone := embeds_done (f := Expr.map m.mark) (a := left) h
    rw [h.tokens_nil] at hdone ⊢
    rw [outcome_extend_nil, outcome_extend_nil]
    exact hdone
  | op :: us =>
    rw [m.tokens_cons]
    by_cases hlt : level < .of op.kind
    · have hlt' : level < .of (m.mark op).kind := hlt
      rw [outcome_extend_of_lt _ left us hlt, outcome_extend_of_lt _ _ _ hlt']
      refine (extendOnce_embeds left op us h (Nat.lt_of_le_of_lt (Nat.zero_le _) hlt)).bind ?_
      intro e rest hdone hrest
      have hlen := (Attempt.suffix_of_outcome hdone).length_le
      exact extend_embeds level e rest hrest
    · have hlt' : ¬level < .of (m.mark op).kind := hlt
      rw [outcome_extend_of_not_lt _ left us hlt, outcome_extend_of_not_lt _ _ _ hlt']
      exact embeds_done h
termination_by 4 * ts.length

theorem extendOnce_embeds (left : Expr Token) (op : Token) (us : List Token)
    (h : m.Fits (op :: us)) (hop : .lowest < Precedence.of op.kind) :
    (extendOnce m.stop left op us).outcome.Embeds m (Expr.map m.mark)
      (extendOnce m.outer (left.map m.mark) (m.mark op) (m.tokens us)).outcome := by
  have hus : m.Fits us := by
    refine h.tail ?_
    intro hk
    rw [hk] at hop
    exact absurd hop (by decide)
  rw [outcome_extendOnce, outcome_extendOnce, m.mark_kind]
  split
  · by_cases hname : ∃ n, left = .name n
    · obtain ⟨n, rfl⟩ := hname
      rw [outcome_call_name, Expr.map, outcome_call_name]
      exact (arguments_embeds us hus).map fun es => rfl
    · have hname := not_exists.1 hname
      rw [outcome_call_of_not_name _ op us hname,
        outcome_call_of_not_name _ _ _ (map_mark_ne_name m hname), notCallable_mark]
      exact embeds_on h
  · rw [outcome_binary, outcome_binary]
    exact (expr_embeds op.kind.operandLevel us hus).map fun e => rfl
termination_by 4 * us.length + 3

theorem arguments_embeds (us : List Token) (h : m.Fits us) :
    (arguments m.stop us).outcome.Embeds m (Expr.mapAll m.mark)
      (arguments m.outer (m.tokens us)).outcome := by
  match us with
  | [] =>
    rw [h.tokens_nil, outcome_arguments_nil, outcome_arguments_nil]
    exact embeds_at_stop h rfl rfl
  | t :: vs =>
    rw [m.tokens_cons, outcome_arguments_cons, outcome_arguments_cons, m.mark_kind]
    split
    · next hclose => exact embeds_done (h.tail_of_kind hclose (by decide))
    · refine (expr_embeds .lowest (t :: vs) h).bind ?_
      intro e rest hdone hrest
      have hlen : rest.length ≤ vs.length + 1 := (Attempt.suffix_of_outcome hdone).length_le
      exact (moreArguments_embeds rest hrest).map fun es => rfl
termination_by 4 * us.length + 1

theorem moreArguments_embeds (us : List Token) (h : m.Fits us) :
    (moreArguments m.stop us).outcome.Embeds m (Expr.mapAll m.mark)
      (moreArguments m.outer (m.tokens us)).outcome := by
  match us with
  | [] =>
    rw [h.tokens_nil, outcome_moreArguments_nil, outcome_moreArguments_nil]
    exact embeds_at_stop h rfl rfl
  | t :: vs =>
    rw [m.tokens_cons, outcome_moreArguments_cons, outcome_moreArguments_cons, m.mark_kind]
    split
    · next hcomma =>
      refine (expr_embeds .lowest vs (h.tail_of_kind hcomma (by decide))).bind ?_
      intro e rest hdone hrest
      have hlen := (Attempt.suffix_of_outcome hdone).length_le
      exact (moreArguments_embeds rest hrest).map fun es => rfl
    · rw [← m.tokens_cons]
      exact (expect_embeds m (by decide) (fun _ => rfl) h).map fun _ => rfl
termination_by 4 * us.length

end

/-! Statements that hold no others. -/

theorem exprStmt_embeds (t : Token) {us : List Token} (h : m.Fits (t :: us)) :
    (exprStmt m.stop t us).outcome.Embeds m (Stmt.map m.mark)
      (exprStmt m.outer (m.mark t) (m.tokens us)).outcome := by
  rw [outcome_exprStmt, outcome_exprStmt]
  exact (exprFrom_embeds m .lowest t us h).map fun e => rfl

theorem assignment_embeds (t n : Token) (isLocal : Bool) {us : List Token} (h : m.Fits us) :
    (assignment m.stop t (.ofToken n) isLocal us).outcome.Embeds m (Assign.map m.mark)
      (assignment m.outer (m.mark t) (.ofToken (m.mark n)) isLocal (m.tokens us)).outcome := by
  rw [outcome_assignment, outcome_assignment]
  exact (expr_embeds m .lowest us h).map fun e => rfl

theorem nameStmt_embeds (t : Token) {us : List Token} (h : m.Fits (t :: us))
    (ht : t.kind = .identifier) :
    (nameStmt m.stop t us).outcome.Embeds m (Stmt.map m.mark)
      (nameStmt m.outer (m.mark t) (m.tokens us)).outcome := by
  have hexpr := exprStmt_embeds m t h
  have hus := h.tail_of_kind ht (by decide)
  cases us with
  | nil =>
    rw [hus.tokens_nil] at hexpr ⊢
    exact hexpr
  | cons u vs =>
    rw [m.tokens_cons] at hexpr ⊢
    rw [outcome_nameStmt_cons, outcome_nameStmt_cons, m.mark_kind]
    split
    · next hu =>
      exact (assignment_embeds m t t false (hus.tail_of_kind hu (by decide))).map fun a => rfl
    split
    · next hu =>
      rw [outcome_callStmt, outcome_callStmt]
      exact (arguments_embeds m vs (hus.tail_of_kind hu (by decide))).map fun es => rfl
    · exact hexpr

theorem localStmt_embeds (t : Token) {us : List Token} (h : m.Fits us) :
    (localStmt m.stop t us).outcome.Embeds m (Stmt.map m.mark)
      (localStmt m.outer (m.mark t) (m.tokens us)).outcome := by
  rw [outcome_localStmt, outcome_localStmt]
  refine (expect_embeds m (by decide) (fun _ => rfl) h).bind ?_
  intro n vs _ hvs
  refine (expect_embeds m (by decide) (fun _ => rfl) hvs).bind ?_
  intro _ ws _ hws
  exact (assignment_embeds m t n true hws).map fun a => rfl

theorem endsStmt_tokens {ts : List Token} (h : m.Fits ts) :
    endsStmt (m.tokens ts) = endsStmt ts := by
  cases ts with
  | nil => rw [h.tokens_nil]
  | cons t us => rfl

theorem returnStmt_embeds (t : Token) {us : List Token} (h : m.Fits us) :
    (returnStmt m.stop t us).outcome.Embeds m (Stmt.map m.mark)
      (returnStmt m.outer (m.mark t) (m.tokens us)).outcome := by
  rw [outcome_returnStmt, outcome_returnStmt, endsStmt_tokens m h]
  split
  · exact embeds_done h
  refine (expr_embeds m .lowest us h).bind ?_
  intro e vs _ hvs
  refine Embeds.map (f := fun _ => ()) ?_ fun _ => rfl
  rw [outcome_expectEnd, outcome_expectEnd, endsStmt_tokens m hvs]
  split
  · exact embeds_done hvs
  · next hends =>
    -- nothing left would have ended the statement
    cases vs with
    | nil => exact absurd rfl hends
    | cons u ws => exact embeds_before hvs

/-! Headers. -/

theorem moreParameters_embeds (us : List Token) (h : m.Fits us) :
    (moreParameters m.stop us).outcome.Embeds m
      (fun r => (r.1.map (Name.map m.mark), m.mark r.2))
      (moreParameters m.outer (m.tokens us)).outcome := by
  match us with
  | [] =>
    rw [h.tokens_nil, outcome_moreParameters_nil, outcome_moreParameters_nil]
    exact embeds_at_stop h rfl rfl
  | t :: vs =>
    rw [m.tokens_cons, outcome_moreParameters_cons, outcome_moreParameters_cons, m.mark_kind]
    split
    · next hcomma =>
      have hvs := h.tail_of_kind hcomma (by decide)
      refine (expect_embeds m (by decide) (fun _ => rfl) hvs).bind ?_
      intro p rest hdone hrest
      have hlen := (Attempt.suffix_of_outcome hdone).length_le
      exact (moreParameters_embeds rest hrest).map fun r => rfl
    · rw [← m.tokens_cons]
      exact (expect_embeds m (by decide) (fun _ => rfl) h).map fun _ => rfl
termination_by us.length

theorem parameters_embeds {us : List Token} (h : m.Fits us) :
    (parameters m.stop us).outcome.Embeds m
      (fun r => (r.1.map (Name.map m.mark), m.mark r.2))
      (parameters m.outer (m.tokens us)).outcome := by
  cases us with
  | nil =>
    rw [h.tokens_nil, outcome_parameters_nil, outcome_parameters_nil]
    exact embeds_at_stop h rfl rfl
  | cons t vs =>
    rw [m.tokens_cons, outcome_parameters_cons, outcome_parameters_cons, m.mark_kind]
    split
    · next hclose => exact embeds_done (h.tail_of_kind hclose (by decide))
    rw [← m.tokens_cons]
    refine (expect_embeds m (by decide) (fun _ => rfl) h).bind ?_
    intro p rest _ hrest
    exact (moreParameters_embeds m rest hrest).map fun r => rfl

theorem step_embeds {us : List Token} (h : m.Fits us) :
    (step m.stop us).outcome.Embeds m (Expr.map m.mark)
      (step m.outer (m.tokens us)).outcome := by
  cases us with
  | nil =>
    have hdone := embeds_done (f := Expr.map m.mark) (a := defaultStep m.stop) h
    rw [h.tokens_nil] at hdone ⊢
    rw [outcome_step_nil, outcome_step_nil, h.closed.2]
    exact hdone
  | cons t vs =>
    rw [m.tokens_cons, outcome_step_cons, outcome_step_cons, m.mark_kind]
    split
    · next hcomma => exact expr_embeds m .lowest vs (h.tail_of_kind hcomma (by decide))
    · exact embeds_done h

theorem forHeader_embeds {us : List Token} (h : m.Fits us) :
    (forHeader m.stop us).outcome.Embeds m
      (fun r => ⟨r.init.map m.mark, r.limit.map m.mark, r.step.map m.mark, m.mark r.opener⟩)
      (forHeader m.outer (m.tokens us)).outcome := by
  rw [outcome_forHeader, outcome_forHeader]
  refine (expect_embeds m (by decide) (fun _ => rfl) h).bind ?_
  intro n us _ h
  refine (expect_embeds m (by decide) (fun _ => rfl) h).bind ?_
  intro _ us _ h
  refine (assignment_embeds m n n false h).bind ?_
  intro init us _ h
  refine (expect_embeds m (by decide) (fun _ => rfl) h).bind ?_
  intro _ us _ h
  refine (expr_embeds m .lowest us h).bind ?_
  intro limit us _ h
  refine (step_embeds m h).bind ?_
  intro st us _ h
  exact (expect_embeds m (by decide) (fun _ => rfl) h).map fun d => rfl

theorem functionHeader_embeds {us : List Token} (h : m.Fits us) :
    (functionHeader m.stop us).outcome.Embeds m
      (fun r => ⟨m.mark r.name, r.parameters.map (Name.map m.mark), m.mark r.opener⟩)
      (functionHeader m.outer (m.tokens us)).outcome := by
  rw [outcome_functionHeader, outcome_functionHeader]
  refine (expect_embeds m (by decide) (fun _ => rfl) h).bind ?_
  intro n us _ h
  refine (expect_embeds m (by decide) (fun _ => rfl) h).bind ?_
  intro _ us _ h
  exact (parameters_embeds m h).map fun r => rfl

end Parse

end LuaSyntax

import LuaSyntax.Proofs.Grammar
import LuaSyntax.Proofs.Outcome

/-! What the grammar spells is read back. The tokens of a phrase may stand before any others,
as long as the next one does not continue the phrase. -/

namespace LuaSyntax

open Grammar Parse

namespace Grammar

theorem Stops.mono {p q : Precedence} {next : Option Kind} (h : Stops p next) (hpq : p ≤ q) :
    Stops q next := fun k hk hlt => h k hk (Nat.lt_of_le_of_lt hpq hlt)

theorem Shape.ends_of_stops {level : Precedence} {next : Option Kind} {e : Expr Token}
    {ts : List Token} {s : Shape} (h : Phrase e ts s) (habove : s.Above level)
    (hlevel : level ≤ .unary) (hstops : Stops level next) : s.Ends next := by
  cases h with
  | literal | group | call => trivial
  | unary => exact hstops.mono hlevel
  | @binary op l ls sl r rs sr hop hl hsl hr hsr =>
    refine hstops.mono ?_
    have hlt : level.rank < (Precedence.of op.kind).rank := habove
    change level.rank ≤ op.kind.operandLevel.rank
    unfold Kind.operandLevel
    split
    · rw [Precedence.rank_lower]
      omega
    · omega

theorem Shape.above_of_leftOf {level : Precedence} {s : Shape} {k : Kind} (h : s.LeftOf k)
    (hlt : level < .of k) : s.Above level := by
  cases s with
  | closed | unary => trivial
  | binary j =>
    rcases h with h | ⟨h, -⟩
    · exact Nat.lt_trans hlt h
    · rw [h] at hlt
      exact hlt

theorem Phrase.shape_name {n : Name Token} {ts : List Token} {s : Shape}
    (h : Phrase (.name n) ts s) : s = .closed := by
  cases h <;> rfl

theorem stops_of_kind {t : Token} {k : Kind} (ht : t.kind = k) (hk : k.continuesExpr = false)
    (ts : List Token) : Stops .lowest (ahead (t :: ts) none) := by
  rw [ahead_cons, stops_some, ht]
  simpa [Kind.continuesExpr] using hk

theorem EndsStatement.stops {next : Option Kind} (h : EndsStatement next) :
    Stops .lowest next := by
  intro k hk
  have hkind := h k hk
  revert hkind
  cases k <;> decide

theorem not_endsStmt_of_expression {e : Expr Token} {ts : List Token} (h : Expression e ts)
    (rest : List Token) : ¬endsStmt (ts ++ rest) = true := by
  obtain ⟨s, h⟩ := h
  obtain ⟨t, us, rfl, ht⟩ := h.exists_cons
  simp only [List.cons_append, endsStmt]
  revert ht
  cases t.kind <;> decide

theorem MoreArguments.exists_cons {es : List (Expr Token)} {ts : List Token}
    (h : MoreArguments es ts) : ∃ t us, ts = t :: us ∧ t.kind.continuesExpr = false := by
  cases h with
  | close ht | comma ht => exact ⟨_, _, rfl, by rw [ht]; rfl⟩

end Grammar

namespace Parse

variable (stop : Position)

theorem outcome_extend_of_stops {level : Precedence} {rest : List Token} (e : Expr Token)
    (h : Stops level (ahead rest none)) : (extend stop level e rest).outcome = .done e rest := by
  cases rest with
  | nil => exact outcome_extend_nil stop level e
  | cons t ts => exact outcome_extend_of_not_lt stop e ts (stops_some.1 h)

/-- Reading the tokens gives the expression, and goes on with what follows them. -/
def ReadsBack (e : Expr Token) (ts : List Token) (s : Shape) : Prop :=
  ∀ (level : Precedence) (rest : List Token), level < .call → s.Above level →
    s.Ends (ahead rest none) →
    (expr stop level (ts ++ rest)).outcome = (extend stop level e rest).outcome

variable {stop} in
theorem ReadsBack.outcome_expr {e : Expr Token} {ts rest : List Token} {s : Shape}
    {level : Precedence} (h : ReadsBack stop e ts s) (he : Phrase e ts s) (hlevel : level ≤ .unary)
    (habove : s.Above level) (hstops : Stops level (ahead rest none)) :
    (expr stop level (ts ++ rest)).outcome = .done e rest := by
  rw [h level rest (Nat.lt_of_le_of_lt hlevel (by decide)) habove
    (Shape.ends_of_stops he habove hlevel hstops), outcome_extend_of_stops stop e hstops]

variable {stop} in
theorem ReadsBack.outcome_argument {e : Expr Token} {ts us : List Token} {s : Shape}
    {es : List (Expr Token)} (h : ReadsBack stop e ts s) (he : Phrase e ts s)
    (hes : MoreArguments es us) (rest : List Token) :
    (expr stop .lowest (ts ++ (us ++ rest))).outcome = .done e (us ++ rest) := by
  obtain ⟨t, us, rfl, ht⟩ := hes.exists_cons
  exact h.outcome_expr he (by decide) (Shape.above_lowest he) (stops_of_kind rfl ht _)

mutual

theorem readsBack_of_phrase : ∀ {e : Expr Token} {ts : List Token} {s : Shape},
    Phrase e ts s → ReadsBack stop e ts s
  | _, _, _, .literal h, _, _, _, _, _ => by
    rw [List.singleton_append, outcome_expr_cons, outcome_exprFrom,
      outcome_operand_of_literal stop _ h, Attempt.outcome_ofToken_ok, Outcome.bind_done]
  | e, _, _, @Phrase.group lp rp _ ts s hl he hr, level, rest, _, _, _ => by
    have hrp := stops_of_kind hr (by decide) rest
    have hinner := (readsBack_of_phrase he).outcome_expr he (by decide) (Shape.above_lowest he) hrp
    have hshape : lp :: (ts ++ [rp]) ++ rest = lp :: (ts ++ rp :: rest) := by simp
    rw [hshape, outcome_expr_cons, outcome_exprFrom, outcome_operand_of_leftParen stop _ hl,
      outcome_grouped, hinner, Outcome.bind_done, outcome_expect_cons, if_pos hr,
      Outcome.map_done, Outcome.bind_done]
  | _, _, _, @Phrase.unary op e ts s hop he hs, level, rest, _, _, hends => by
    have hoperand := (readsBack_of_phrase he).outcome_expr he (by decide) hs hends
    rw [List.cons_append, outcome_expr_cons, outcome_exprFrom,
      outcome_operand_of_isUnary stop _ hop, outcome_unary, hoperand, Outcome.map_done,
      Outcome.bind_done]
  | _, _, _, @Phrase.binary op l ls sl r rs sr hop hl hsl hr hsr, level, rest, hlevel, habove,
      hends => by
    have hlt : level < .of op.kind := habove
    have hparen : op.kind ≠ .leftParen := ((Kind.isBinary_iff _).1 hop).2
    have hright := (readsBack_of_phrase hr).outcome_expr hr (Kind.operandLevel_le_unary hop)
      ((sr.rightOf_iff hop).1 hsr) hends
    have hends' : sl.Ends (ahead (op :: (rs ++ rest)) none) := (hl.leftOf_iff op.kind).1 hsl
    have hshape : ls ++ op :: rs ++ rest = ls ++ op :: (rs ++ rest) := by simp
    rw [hshape, readsBack_of_phrase hl level _ hlevel (Shape.above_of_leftOf hsl hlt) hends',
      outcome_extend_of_lt stop l _ hlt, outcome_extendOnce, if_neg hparen, outcome_binary, hright,
      Outcome.map_done, Outcome.bind_done]
  | _, _, _, @Phrase.call op n ns s es us hn hop hes, level, rest, hlevel, _, _ => by
    have hlt : level < .of op.kind := by rwa [hop]
    have habove : s.Above level := by rw [hn.shape_name]; trivial
    have hends : s.Ends (ahead (op :: (us ++ rest)) none) := by rw [hn.shape_name]; trivial
    have hshape : ns ++ op :: us ++ rest = ns ++ op :: (us ++ rest) := by simp
    rw [hshape, readsBack_of_phrase hn level _ hlevel habove hends,
      outcome_extend_of_lt stop _ _ hlt, outcome_extendOnce, if_pos hop, outcome_call_name,
      outcome_arguments_append hes rest, Outcome.map_done, Outcome.bind_done]

theorem outcome_arguments_append : ∀ {es : List (Expr Token)} {ts : List Token},
    Arguments es ts → ∀ rest, (arguments stop (ts ++ rest)).outcome = .done es rest
  | _, _, .none h, _ => by
    rw [List.singleton_append, outcome_arguments_cons, if_pos h]
  | _, _, @Arguments.some e ts s es us he hes, rest => by
    have hfirst := (readsBack_of_phrase he).outcome_argument he hes rest
    have hmore := outcome_moreArguments_append hes rest
    obtain ⟨t, ts, rfl, ht⟩ := he.exists_cons
    have hclose : t.kind ≠ .rightParen := by
      intro hk
      rw [hk] at ht
      exact absurd ht (by decide)
    rw [List.append_assoc, List.cons_append, outcome_arguments_cons, if_neg hclose,
      ← List.cons_append, hfirst, Outcome.bind_done, hmore, Outcome.map_done]

theorem outcome_moreArguments_append : ∀ {es : List (Expr Token)} {ts : List Token},
    MoreArguments es ts → ∀ rest, (moreArguments stop (ts ++ rest)).outcome = .done es rest
  | _, _, .close h, _ => by
    have hcomma : ¬Kind.rightParen = .comma := by decide
    rw [List.singleton_append, outcome_moreArguments_cons, h, if_neg hcomma, outcome_expect_cons,
      if_pos h, Outcome.map_done]
  | _, _, @MoreArguments.comma c e ts s es us hc he hes, rest => by
    have hfirst := (readsBack_of_phrase he).outcome_argument he hes rest
    have hmore := outcome_moreArguments_append hes rest
    rw [List.cons_append, List.append_assoc, outcome_moreArguments_cons, if_pos hc, hfirst,
      Outcome.bind_done, hmore, Outcome.map_done]

end

theorem outcome_expression {e : Expr Token} {ts rest : List Token} (he : Expression e ts)
    (hstops : Stops .lowest (ahead rest none)) :
    (expr stop .lowest (ts ++ rest)).outcome = .done e rest := by
  obtain ⟨s, he⟩ := he
  exact (readsBack_of_phrase stop he).outcome_expr he (by decide) (Shape.above_lowest he) hstops

theorem outcome_expression_of_kind {e : Expr Token} {ts rest : List Token} {t : Token} {k : Kind}
    (he : Expression e ts) (ht : t.kind = k) (hk : k.continuesExpr = false) :
    (expr stop .lowest (ts ++ t :: rest)).outcome = .done e (t :: rest) :=
  outcome_expression stop he (stops_of_kind ht hk rest)

/-! Headers. -/

theorem outcome_moreParameters_append {rp : Token} {ps : List (Name Token)} {ts : List Token}
    (h : MoreParameters rp ps ts) (rest : List Token) :
    (moreParameters stop (ts ++ rest)).outcome = .done (ps, rp) rest := by
  induction h with
  | close hrp =>
    have hcomma : ¬Kind.rightParen = .comma := by decide
    rw [List.singleton_append, outcome_moreParameters_cons, hrp, if_neg hcomma,
      outcome_expect_of_kind hrp, Outcome.map_done]
  | comma hc hp hps ih =>
    rw [List.cons_append, List.cons_append, outcome_moreParameters_cons, if_pos hc,
      outcome_expect_of_kind hp, Outcome.bind_done, ih, Outcome.map_done]

theorem outcome_parameters_append {rp : Token} {ps : List (Name Token)} {ts : List Token}
    (h : Parameters rp ps ts) (rest : List Token) :
    (parameters stop (ts ++ rest)).outcome = .done (ps, rp) rest := by
  cases h with
  | none hrp => rw [List.singleton_append, outcome_parameters_cons, if_pos hrp]
  | some hp hps =>
    have hclose : ¬Kind.identifier = .rightParen := by decide
    rw [List.cons_append, outcome_parameters_cons, hp, if_neg hclose, outcome_expect_of_kind hp,
      Outcome.bind_done, outcome_moreParameters_append stop hps, Outcome.map_done]

theorem outcome_step_append {d : Token} {st : Expr Token} {ts : List Token} (h : Step d st ts)
    (hd : d.kind = .kwDo) (rest : List Token) :
    (step stop (ts ++ d :: rest)).outcome = .done st (d :: rest) := by
  cases h with
  | given hc he =>
    rw [List.cons_append, outcome_step_cons, if_pos hc,
      outcome_expression_of_kind stop he hd (by decide)]
  | omitted =>
    have hcomma : ¬Kind.kwDo = .comma := by decide
    rw [List.nil_append, outcome_step_cons, hd, if_neg hcomma]

theorem outcome_forHeader_append {h : ForHeader} {ts : List Token} (hh : ForHead h ts)
    (rest : List Token) : (forHeader stop (ts ++ rest)).outcome = .done h rest := by
  cases hh with
  | @mk n eq i is c l ls st sts d hn heq hi hc hl hst hd =>
    have hlimit : Stops .lowest (ahead (sts ++ d :: rest) none) := by
      cases hst with
      | given hc' => exact stops_of_kind hc' (by decide) _
      | omitted => exact stops_of_kind hd (by decide) rest
    have hshape : n :: eq :: (is ++ c :: (ls ++ (sts ++ [d]))) ++ rest =
        n :: eq :: (is ++ c :: (ls ++ (sts ++ d :: rest))) := by simp
    rw [hshape, outcome_forHeader, outcome_expect_of_kind hn, Outcome.bind_done,
      outcome_expect_of_kind heq, Outcome.bind_done, outcome_assignment,
      outcome_expression_of_kind stop hi hc (by decide), Outcome.map_done, Outcome.bind_done,
      outcome_expect_of_kind hc, Outcome.bind_done, outcome_expression stop hl hlimit,
      Outcome.bind_done, outcome_step_append stop hst hd, Outcome.bind_done,
      outcome_expect_of_kind hd, Outcome.map_done]

theorem outcome_functionHeader_append {h : FunctionHeader} {ts : List Token}
    (hh : FunctionHead h ts) (rest : List Token) :
    (functionHeader stop (ts ++ rest)).outcome = .done h rest := by
  cases hh with
  | mk hn hlp hps =>
    rw [List.cons_append, List.cons_append, outcome_functionHeader, outcome_expect_of_kind hn,
      Outcome.bind_done, outcome_expect_of_kind hlp, Outcome.bind_done,
      outcome_parameters_append stop hps, Outcome.map_done]

/-! Statements and blocks. -/

def StmtReadsBack (s : Stmt Token) (ts rest : List Token) : Prop :=
  ∃ t us, ts = t :: us ∧ (stmtFrom stop t (us ++ rest)).run = ⟨[], .done s rest⟩

theorem run_block_append {construct terminator : Kind} (opener : Token) {e : Token} {k : Kind}
    {ss : List (Stmt Token)} {bs rest : List Token} (he : e.kind = k) (hk : k.isBlockEnd = true)
    (hss : (statements stop construct terminator (bs ++ e :: rest)).run =
      (statements stop construct terminator (e :: rest)).run.map (ss ++ ·)) :
    (block stop construct terminator opener (bs ++ e :: rest)).run =
      ⟨[], .done ⟨opener, ss⟩ (e :: rest)⟩ := by
  have hend : e.kind.isBlockEnd = true := by rwa [he]
  rw [run_block, hss, run_statements_of_blockEnd stop _ _ rest hend]
  simp

theorem outcome_nameStmt_of_bare (t : Token) {us : List Token}
    (hassign : ahead us none ≠ some .assign) (hparen : ahead us none ≠ some .leftParen) :
    (nameStmt stop t us).outcome = (exprStmt stop t us).outcome := by
  cases us with
  | nil => exact outcome_nameStmt_nil stop t
  | cons u vs =>
    have hassign' : u.kind ≠ .assign := fun hk => hassign (congrArg some hk)
    have hparen' : u.kind ≠ .leftParen := fun hk => hparen (congrArg some hk)
    rw [outcome_nameStmt_cons, if_neg hassign', if_neg hparen']

theorem exprStmt_readsBack {t : Token} {e : Expr Token} {us rest : List Token}
    (he : Expression e (t :: us)) (ht : StartsBare t (ahead (us ++ rest) none))
    (hstops : Stops .lowest (ahead rest none)) :
    (stmtFrom stop t (us ++ rest)).run = ⟨[], .done (.expression t e) rest⟩ := by
  have hexpr : (exprStmt stop t (us ++ rest)).outcome = .done (.expression t e) rest := by
    rw [outcome_exprStmt, ← outcome_expr_cons, ← List.cons_append,
      outcome_expression stop he hstops, Outcome.map_done]
  rcases ht with ht | ⟨ht, hassign, hparen⟩
  · rw [stmtFrom_of_not_startsStmt stop _ ht, Logged.run_logged, hexpr]
    rfl
  · rw [run_stmtFrom, ht]
    simp only
    rw [outcome_nameStmt_of_bare stop t hassign hparen, hexpr]
    rfl

mutual

theorem stmtReadsBack_of_statement : ∀ {s : Stmt Token} {ts : List Token} {next : Option Kind},
    Statement s ts next → ∀ rest, ahead rest none = next → StmtReadsBack stop s ts rest
  | _, _, _, .expression he ht hnext, rest, hrest => by
    rw [← hrest] at ht hnext
    rw [← ahead_append] at ht
    exact ⟨_, _, rfl, exprStmt_readsBack stop he ht hnext⟩
  | _, _, _, @Statement.call t op es us next ht hop hes, rest, _ => by
    refine ⟨t, op :: us, rfl, ?_⟩
    have hassign : ¬Kind.leftParen = .assign := by decide
    rw [run_stmtFrom, ht]
    simp only
    rw [List.cons_append, outcome_nameStmt_cons, hop, if_neg hassign, if_pos rfl, outcome_callStmt,
      outcome_arguments_append stop hes]
    rfl
  | _, _, _, @Statement.assign t eq e ts next ht heq he hnext, rest, hrest => by
    refine ⟨t, eq :: ts, rfl, ?_⟩
    rw [← hrest] at hnext
    rw [run_stmtFrom, ht]
    simp only
    rw [List.cons_append, outcome_nameStmt_cons, if_pos heq, outcome_assignment,
      outcome_expression stop he hnext]
    rfl
  | _, _, _, @Statement.localAssign t n eq e ts next ht hn heq he hnext, rest, hrest => by
    refine ⟨t, n :: eq :: ts, rfl, ?_⟩
    rw [← hrest] at hnext
    rw [run_stmtFrom, ht]
    simp only
    rw [List.cons_append, List.cons_append, outcome_localStmt, outcome_expect_of_kind hn,
      Outcome.bind_done, outcome_expect_of_kind heq, Outcome.bind_done, outcome_assignment,
      outcome_expression stop he hnext]
    rfl
  | _, _, _, @Statement.ret t next ht hnext, rest, hrest => by
    refine ⟨t, [], rfl, ?_⟩
    rw [← hrest, ← endsStmt_iff] at hnext
    rw [run_stmtFrom, ht]
    simp only
    rw [List.nil_append, outcome_returnStmt, if_pos hnext]
    rfl
  | _, _, _, @Statement.retValue t e ts next ht he hnext, rest, hrest => by
    refine ⟨t, ts, rfl, ?_⟩
    rw [← hrest] at hnext
    have hvalue := outcome_expression stop he hnext.stops
    rw [run_stmtFrom, ht]
    simp only
    rw [outcome_returnStmt, if_neg (not_endsStmt_of_expression he rest), hvalue,
      Outcome.bind_done, outcome_expectEnd, if_pos ((endsStmt_iff rest).2 hnext)]
    rfl
  | _, _, _, @Statement.cond t s ts next ht hs, rest, _ => by
    refine ⟨t, ts, rfl, ?_⟩
    rw [run_stmtFrom, ht]
    exact run_condStmt_append hs rest
  | _, _, _, @Statement.whileLoop t c cs d ss bs e next ht hc hd hss he, rest, _ => by
    have hbody := run_block_append stop d he (by decide)
      (run_statements_append hss .kwWhile .kwEnd (e :: rest) (congrArg some he))
    have hshape : cs ++ d :: (bs ++ [e]) ++ rest = cs ++ d :: (bs ++ e :: rest) := by simp
    refine ⟨t, _, rfl, ?_⟩
    rw [hshape, run_stmtFrom, ht]
    simp only
    rw [run_whileStmt, outcome_expression_of_kind stop hc hd (by decide), Outcome.bind_run_done,
      outcome_expect_of_kind hd, Outcome.bind_run_done, hbody, Run.bind_done,
      outcome_closing_of_kind stop he]
    rfl
  | _, _, _, @Statement.forLoop t h hs ss bs e next ht hh hss he, rest, _ => by
    have hbody := run_block_append stop h.opener he (by decide)
      (run_statements_append hss .kwFor .kwEnd (e :: rest) (congrArg some he))
    have hshape : hs ++ (bs ++ [e]) ++ rest = hs ++ (bs ++ e :: rest) := by simp
    refine ⟨t, _, rfl, ?_⟩
    rw [hshape, run_stmtFrom, ht]
    simp only
    rw [run_forStmt, outcome_forHeader_append stop hh, Outcome.bind_run_done, hbody,
      Run.bind_done, outcome_closing_of_kind stop he]
    rfl
  | _, _, _, @Statement.repeatLoop t ss bs u c cs next ht hss hu hc hnext, rest, hrest => by
    have hbody := run_block_append stop t hu (by decide)
      (run_statements_append hss .kwRepeat .kwUntil (u :: (cs ++ rest)) (congrArg some hu))
    have hshape : bs ++ u :: cs ++ rest = bs ++ u :: (cs ++ rest) := by simp
    refine ⟨t, _, rfl, ?_⟩
    rw [← hrest] at hnext
    rw [hshape, run_stmtFrom, ht]
    simp only
    rw [run_repeatStmt, hbody, Run.bind_done, outcome_closing_of_kind stop hu,
      Outcome.bind_run_done, outcome_expression stop hc hnext]
    rfl
  | _, _, _, @Statement.function t h hs ss bs e next ht hh hss he, rest, _ => by
    have hbody := run_block_append stop h.opener he (by decide)
      (run_statements_append hss .kwFunction .kwEnd (e :: rest) (congrArg some he))
    have hshape : hs ++ (bs ++ [e]) ++ rest = hs ++ (bs ++ e :: rest) := by simp
    refine ⟨t, _, rfl, ?_⟩
    rw [hshape, run_stmtFrom, ht]
    simp only
    rw [run_functionStmt, outcome_functionHeader_append stop hh, Outcome.bind_run_done, hbody,
      Run.bind_done, outcome_closing_of_kind stop he]
    rfl

theorem run_statements_append : ∀ {ss : List (Stmt Token)} {ts : List Token}
    {next : Option Kind}, Statements ss ts next →
      ∀ (construct terminator : Kind) (rest : List Token), ahead rest none = next →
      (statements stop construct terminator (ts ++ rest)).run =
        (statements stop construct terminator rest).run.map (ss ++ ·)
  | _, _, _, .nil, _, _, _, _ => by simp
  | _, _, _, @Statements.separator t ss ts next ht hss, construct, terminator, rest, hrest => by
    rw [List.cons_append, run_statements_of_separator stop _ _ _ ht]
    exact run_statements_append hss construct terminator rest hrest
  | _, _, _, @Statements.cons s ts ss us next hs hss, construct, terminator, rest, hrest => by
    have hmore := run_statements_append hss construct terminator rest hrest
    have hahead : ahead (us ++ rest) none = ahead us next := by rw [ahead_append, hrest]
    have hstmt := stmtReadsBack_of_statement hs (us ++ rest) hahead
    obtain ⟨t, vs, rfl, hsep, hend⟩ := hs.exists_cons
    obtain ⟨_, _, ⟨⟩, hrun⟩ := hstmt
    have hshape : t :: vs ++ us ++ rest = t :: (vs ++ (us ++ rest)) := by simp
    rw [hshape, run_statements_of_done stop construct terminator (by simp [hend]) (by simp [hsep])
      hrun, hmore, Run.map_map, Run.after_nil]
    rfl

theorem run_condStmt_append : ∀ {t : Token} {s : Stmt Token} {ts : List Token},
    Branch t s ts → ∀ rest, (condStmt stop t (ts ++ rest)).run = ⟨[], .done s rest⟩
  | _, _, _, @Branch.mk t c cs th ss bs a us hc hth hss ha, rest => by
    have halt := run_alternative_append ha rest
    obtain ⟨u, us, rfl, hu⟩ := ha.exists_cons
    have hbody := run_block_append stop th rfl hu
      (run_statements_append hss .kwIf .kwEnd (u :: (us ++ rest)) rfl)
    have hshape : cs ++ th :: (bs ++ u :: us) ++ rest = cs ++ th :: (bs ++ u :: (us ++ rest)) := by
      simp
    rw [List.cons_append] at halt
    rw [hshape, run_condStmt, outcome_expression_of_kind stop hc hth (by decide),
      Outcome.bind_run_done, outcome_expect_of_kind hth, Outcome.bind_run_done, hbody,
      Run.bind_done, halt]
    rfl

theorem run_alternative_append : ∀ {a : Option (Block Token (Stmt Token))} {ts : List Token},
    Alternative a ts → ∀ rest, (alternative stop (ts ++ rest)).run = ⟨[], .done a rest⟩
  | _, _, .none he, rest => by
    have helseif : ¬Kind.kwEnd = .kwElseif := by decide
    have helse : ¬Kind.kwEnd = .kwElse := by decide
    rw [List.singleton_append, run_alternative_cons, he, if_neg helseif, if_neg helse,
      outcome_closing_of_kind stop he]
    rfl
  | _, _, @Alternative.block t ss bs e ht hss he, rest => by
    have helseif : ¬Kind.kwElse = .kwElseif := by decide
    have hbody := run_block_append stop t he (by decide)
      (run_statements_append hss .kwIf .kwEnd (e :: rest) (congrArg some he))
    have hshape : t :: (bs ++ [e]) ++ rest = t :: (bs ++ e :: rest) := by simp
    rw [hshape, run_alternative_cons, ht, if_neg helseif, if_pos rfl, hbody, Run.bind_done,
      outcome_closing_of_kind stop he]
    rfl
  | _, _, @Alternative.branch t s ts ht hs, rest => by
    rw [List.cons_append, run_alternative_cons, if_pos ht, run_condStmt_append hs rest]
    rfl

end

end Parse

theorem Parsed.ofTokens_append {ss : List (Stmt Token)} {ts : List Token} {next : Option Kind}
    (stop : Position) (h : Statements ss ts next) (rest : List Token)
    (hrest : ahead rest none = next) :
    ofTokens stop (ts ++ rest) =
      ⟨ss ++ (ofTokens stop rest).program, (ofTokens stop rest).diagnostics⟩ := by
  match h with
  | .nil => rfl
  | @Statements.separator t ss ts _ ht hss =>
    rw [List.cons_append, ofTokens_of_separator stop _ ht]
    exact ofTokens_append stop hss rest hrest
  | @Statements.cons s ts ss us _ hs hss =>
    have hmore := ofTokens_append stop hss rest hrest
    have hahead : ahead (us ++ rest) none = ahead us next := by rw [ahead_append, hrest]
    obtain ⟨t, vs, rfl, hrun⟩ := stmtReadsBack_of_statement stop hs (us ++ rest) hahead
    obtain ⟨_, _, ⟨⟩, hsep, -⟩ := hs.exists_cons
    have hshape : t :: vs ++ us ++ rest = t :: (vs ++ (us ++ rest)) := by simp
    rw [hshape, ofTokens_of_done stop (by simp [hsep]) hrun, hmore]
    rfl

theorem Parsed.ofTokens_of_sentence (stop : Position) {p : Program Token} {ts : List Token}
    (h : Sentence p ts) : ofTokens stop ts = ⟨p, []⟩ := by
  have happend := ofTokens_append stop h [] rfl
  simpa using happend

/-- A source whose tokens are a sentence is read as that sentence. -/
theorem parse_of_sentence {p : Program Token} {text : String} {file : Option String}
    (h : Sentence p (tokenize text file).dropLast) : parse text file = ⟨p, []⟩ := by
  rw [dropLast_tokenize] at h
  exact Parsed.ofTokens_of_sentence _ h

end LuaSyntax

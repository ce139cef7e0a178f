import LuaSyntax.Parser
import LuaSyntax.Proofs.Soundness
import LuaSyntax.Proofs.Completeness

/-! Where a parser that is driven step by step stands after a reading. Both its answer and the
token it stands on are told by the outcome of the reading. So an expression is read through its
last token at every level, and a call that is read as a statement is read as an expression too,
up to what stands behind its closing parenthesis. -/

namespace LuaSyntax

open Grammar Parse

namespace Parser

variable {α : Type} {lead us : List Token} (p : Parser)

theorem settle_of_done {a : Attempt α lead us} {v : α} {rest : List Token}
    (h : a.outcome = .done v rest) : p.settle a = (some v, p.keepLast (rest.length + 1)) := by
  cases a with
  | done w ts hts =>
    cases h
    rfl
  | failed d halt hw => cases h

theorem settle_of_failed {a : Attempt α lead us} {d : Diagnostic} {halt : Halt}
    (h : a.outcome = .failed d halt) : (p.settle a).1 = none := by
  cases a with
  | done v ts hts => cases h
  | failed d' halt' hw => cases halt' <;> rfl

theorem settle_congr {a b : Attempt α lead us} (h : a.outcome = b.outcome) :
    p.settle a = p.settle b := by
  cases a with
  | done v ts hts =>
    rw [settle_of_done p rfl, settle_of_done p h.symm]
  | failed d halt hw =>
    cases b with
    | done v ts hts => cases h
    | failed d' halt' hw' =>
      cases h
      rfl

variable {p}

theorem keepLast_append {ts rest : List Token} {last : Token}
    (h : p.tokens = ts ++ last :: rest) :
    p.keepLast (rest.length + 1) = { p with tokens := last :: rest } := by
  have hlength : (ts ++ last :: rest).length - (rest.length + 1) = ts.length := by
    rw [List.length_append, List.length_cons, Nat.add_sub_cancel]
  rw [keepLast, h, hlength, List.drop_left]

/-- A reading that succeeded has the effect of another one just if their outcomes are the same:
the tokens that are left tell how many were taken. -/
theorem settle_eq_iff {a b : Attempt α lead us} {v : α} {rest : List Token}
    (hus : us.length < p.tokens.length) (ha : a.outcome = .done v rest) :
    p.settle b = p.settle a ↔ b.outcome = .done v rest := by
  constructor
  · intro h
    rw [settle_of_done p ha] at h
    cases hb : b.outcome with
    | failed d halt =>
      have hnone := settle_of_failed p hb
      rw [h] at hnone
      cases hnone
    | done w ts =>
      rw [settle_of_done p hb, Prod.mk.injEq, Option.some.injEq] at h
      obtain ⟨rfl, hparser⟩ := h
      have hts := Attempt.suffix_of_outcome hb
      have hrest := Attempt.suffix_of_outcome ha
      have hkept : (p.tokens.drop (p.tokens.length - (ts.length + 1))).length =
          (p.tokens.drop (p.tokens.length - (rest.length + 1))).length :=
        congrArg (fun q => q.tokens.length) hparser
      rw [List.length_drop, List.length_drop] at hkept
      have hlength : ts.length = rest.length := by
        have := hts.length_le
        have := hrest.length_le
        omega
      -- two suffixes of the same length are one
      have hsuffix := List.suffix_of_suffix_length_le hts hrest (Nat.le_of_eq hlength)
      rw [hsuffix.eq_of_length hlength]
  · intro h
    exact settle_congr p (h.trans ha.symm)

theorem tokens_of_current {k : Kind} (h : p.current.kind = k) (hk : k ≠ .endOfInput) :
    ∃ t us, p.tokens = t :: us ∧ p.current = t := by
  unfold current at h ⊢
  cases htokens : p.tokens with
  | nil =>
    rw [htokens] at h
    exact absurd h.symm hk
  | cons t us => exact ⟨t, us, rfl, rfl⟩

end Parser

/-! Expressions. -/

theorem Grammar.stops_iff {level : Precedence} (stop : Position) {rest : List Token} :
    Stops level (ahead rest none) ↔ Precedence.of (rest.headD (.eof stop)).kind ≤ level := by
  cases rest with
  | nil => exact iff_of_true (stops_none level) (Nat.zero_le _)
  | cons t ts => exact stops_some.trans Nat.not_lt

/-- Below the level of calls, where a level ends nothing ahead is part of the last operand of a
phrase, except of one that is the operand of an operator in front of it. -/
theorem Grammar.Phrase.ends {e : Expr Token} {ts : List Token} {s : Shape} (h : Phrase e ts s)
    {level : Precedence} {next : Option Kind} (habove : s.Above level) (hstops : Stops level next)
    (hunary : s = .unary → Stops .unary next) : s.Ends next := by
  cases h with
  | literal | group | call => trivial
  | unary => exact hunary rfl
  | @binary op l ls sl r rs sr hop hl hsl hr hsr =>
    -- the phrase binds tighter than the level, so the level is not above that of its operands
    have hlevel : level ≤ .unary := by
      have hlt : level.rank < (Precedence.of op.kind).rank := habove
      have htight : (Precedence.of op.kind).rank ≤ Precedence.unary.rank + 1 := by
        revert hop
        cases op.kind <;> decide
      exact Nat.le_of_lt_succ (Nat.lt_of_lt_of_le hlt htight)
    exact Shape.ends_of_stops (.binary hop hl hsl hr hsr) habove hlevel hstops

/-- At any level below that of calls, a parser that stands at the start of an expression reads it
and stands on its last token then, with nothing reported. The expression has parentheses at least
where its operators call for them, and on its outside unless its operator binds tighter than the
level. What follows does not bind tighter than the level, nor than an operator in front of the
whole expression. -/
theorem Parser.expr_of_phrase (p : Parser) {level : Precedence} (hlevel : level < .call)
    {e : Expr Token} {ts rest : List Token} {last : Token} {s : Shape}
    (htokens : p.tokens = ts ++ last :: rest) (hphrase : Phrase e (ts ++ [last]) s)
    (habove : s.Above level)
    (hnext : Precedence.of (rest.headD (.eof p.stop)).kind ≤ level)
    (hunary : s = .unary → Precedence.of (rest.headD (.eof p.stop)).kind ≤ .unary) :
    p.expr level = (some e, { p with tokens := last :: rest }) := by
  have hstops : Stops level (ahead rest none) := (stops_iff p.stop).2 hnext
  have hends : s.Ends (ahead rest none) :=
    hphrase.ends habove hstops fun hs => (stops_iff p.stop).2 (hunary hs)
  have hread : (Parse.expr p.stop level (ts ++ [last] ++ rest)).outcome = .done e rest := by
    rw [readsBack_of_phrase p.stop hphrase level rest hlevel habove hends,
      outcome_extend_of_stops p.stop e hstops]
  obtain ⟨t, us, htus, -⟩ := hphrase.exists_cons
  have hcons : p.tokens = t :: (us ++ rest) := by
    rw [htokens, ← List.cons_append, ← htus, List.append_assoc, List.singleton_append]
  rw [htus, List.cons_append, outcome_expr_cons] at hread
  have hcurrent : p.current = t := by rw [Parser.current, hcons, List.headD_cons]
  have htail : p.tokens.tail = us ++ rest := by rw [hcons, List.tail_cons]
  rw [Parser.expr, hcurrent, htail, Parser.settle_of_done p hread, Parser.keepLast_append htokens]

theorem Parser.expr_of_phrase_concat :
    let t (k : Kind) (v : String) (i j : UInt32) : Token :=
      ⟨k, v, ⟨1, i, "shell"⟩, ⟨1, j, "shell"⟩⟩
    (Parser.ofText "-x^2 .. f(y) or z" none).expr .and =
      (some (.binary (t .concat ".." 6 8) ".."
          (.unary (t .minus "-" 1 2) "-" (.binary (t .caret "^" 3 4) "^"
            (.name ⟨t .identifier "x" 2 3, "x"⟩) (.integer (t .numeral "2" 4 5) 2)))
          (.call (t .leftParen "(" 10 11) ⟨t .identifier "f" 9 10, "f"⟩
            [.name ⟨t .identifier "y" 11 12, "y"⟩])),
        ⟨[t .rightParen ")" 12 13, t .kwOr "or" 14 16, t .identifier "z" 17 18],
          ⟨1, 18, "shell"⟩, []⟩) := by
  intro t
  have hparser : Parser.ofText "-x^2 .. f(y) or z" none =
      ⟨[t .minus "-" 1 2, t .identifier "x" 2 3, t .caret "^" 3 4, t .numeral "2" 4 5,
        t .concat ".." 6 8, t .identifier "f" 9 10, t .leftParen "(" 10 11,
        t .identifier "y" 11 12, t .rightParen ")" 12 13, t .kwOr "or" 14 16,
        t .identifier "z" 17 18], ⟨1, 18, "shell"⟩, []⟩ := by decide +kernel
  have hvalue : Number.ofText? "2".toList = some (.integer 2) := by decide +kernel
  have htwo : Expr.ofToken? (t .numeral "2" 4 5) =
      some (.ok (.integer (t .numeral "2" 4 5) 2)) := by
    simp only [Expr.ofToken?, Expr.ofNumeral, t, hvalue]
  have hpower : Phrase _ ([t .identifier "x" 2 3] ++ t .caret "^" 3 4 :: [t .numeral "2" 4 5]) _ :=
    .binary rfl (.literal rfl) trivial (.literal htwo) trivial
  have hminus : Phrase _ (t .minus "-" 1 2 :: _) _ :=
    .unary rfl hpower (show Precedence.unary < .exponentiation by decide)
  have hcall : Phrase _ ([t .identifier "f" 9 10] ++ t .leftParen "(" 10 11 ::
      ([t .identifier "y" 11 12] ++ [t .rightParen ")" 12 13])) _ :=
    .call (.literal rfl) rfl (.some (.literal rfl) (.close rfl))
  have hphrase : Phrase _ ([t .minus "-" 1 2, t .identifier "x" 2 3, t .caret "^" 3 4,
      t .numeral "2" 4 5, t .concat ".." 6 8, t .identifier "f" 9 10, t .leftParen "(" 10 11,
      t .identifier "y" 11 12] ++ [t .rightParen ")" 12 13]) (.binary .concat) :=
    .binary rfl hminus (show Precedence.concatenation ≤ .unary by decide) hcall trivial
  rw [hparser]
  exact expr_of_phrase _ (by decide) rfl hphrase
    (show Precedence.and < .concatenation by decide) (show Precedence.or ≤ .and by decide)
    (by rintro ⟨⟩)

/-! Calls as statements. -/

theorem Precedence.le_lowest_iff {level : Precedence} : level ≤ .lowest ↔ level = .lowest := by
  constructor
  · intro h
    exact rank_injective (Nat.le_zero.1 h)
  · rintro rfl
    exact Nat.le_refl _

theorem Outcome.map_eq_done_of_injective {α β : Type} {f : α → β} (hf : Function.Injective f)
    {o : Outcome α} {v : α} {rest : List Token} :
    o.map f = .done (f v) rest ↔ o = .done v rest := by
  rw [map_eq_done]
  constructor
  · rintro ⟨a, rfl, ha⟩
    rw [hf ha]
  · rintro rfl
    exact ⟨v, rfl, rfl⟩

theorem Grammar.MoreArguments.exists_concat {es : List (Expr Token)} {ts : List Token}
    (h : MoreArguments es ts) : ∃ us rp, ts = us ++ [rp] ∧ rp.kind = .rightParen := by
  cases h with
  | close h => exact ⟨[], _, rfl, h⟩
  | @comma c e ts s es us hc he hes =>
    obtain ⟨vs, rp, rfl, hrp⟩ := hes.exists_concat
    exact ⟨c :: (ts ++ vs), rp, by simp, hrp⟩

theorem Grammar.Arguments.exists_concat {es : List (Expr Token)} {ts : List Token}
    (h : Arguments es ts) : ∃ us rp, ts = us ++ [rp] ∧ rp.kind = .rightParen := by
  cases h with
  | none h => exact ⟨[], _, rfl, h⟩
  | @some e ts s es us he hes =>
    obtain ⟨vs, rp, rfl, hrp⟩ := hes.exists_concat
    exact ⟨ts ++ vs, rp, by simp, hrp⟩

namespace Parse

variable (stop : Position)

/-- An expression is not extended just if nothing ahead binds tighter than the level: an extension
takes a token. -/
theorem outcome_extend_eq_done_iff {level : Precedence} {e : Expr Token} {rest : List Token} :
    (extend stop level e rest).outcome = .done e rest ↔ Stops level (ahead rest none) := by
  refine ⟨fun h => ?_, outcome_extend_of_stops stop e⟩
  cases rest with
  | nil => exact stops_none level
  | cons op us =>
    rw [ahead_cons, stops_some]
    intro hlt
    rw [outcome_extend_of_lt stop e us hlt] at h
    obtain ⟨e', vs, honce, hmore⟩ := Outcome.bind_eq_done.1 h
    have hvs := (Attempt.suffix_of_outcome honce).length_le
    have hrest := (Attempt.suffix_of_outcome hmore).length_le
    rw [List.length_cons] at hrest
    omega

variable {t op : Token} (us : List Token) (ht : t.kind = .identifier) (hop : op.kind = .leftParen)
include hop

theorem outcome_nameStmt_of_call :
    (nameStmt stop t (op :: us)).outcome =
      (arguments stop us).outcome.map fun es => .expression t (.call op (.ofToken t) es) := by
  have hassign : op.kind ≠ .assign := by rw [hop]; decide
  rw [outcome_nameStmt_cons, if_neg hassign, if_pos hop, outcome_callStmt]

include ht

theorem outcome_exprStmt_of_call :
    (exprStmt stop t (op :: us)).outcome =
      ((arguments stop us).outcome.bind fun es rest =>
        (extend stop .lowest (.call op (.ofToken t) es) rest).outcome).map (.expression t) := by
  have hname : Expr.ofToken? t = some (.ok (.name (.ofToken t))) := by
    rw [Expr.ofToken?, ht]
    rfl
  have hlt : Precedence.lowest < .of op.kind := by rw [hop]; decide
  rw [outcome_exprStmt, outcome_exprFrom, outcome_operand_of_literal stop _ hname,
    Attempt.outcome_ofToken_ok, Outcome.bind_done, outcome_extend_of_lt stop _ us hlt,
    outcome_extendOnce, if_pos hop, outcome_call_name]
  cases (arguments stop us).outcome <;> rfl

end Parse

section

variable {p : Parser} {t op : Token} {us : List Token} (htokens : p.tokens = t :: op :: us)
include htokens

theorem Parser.nameStmt_eq_settle :
    p.nameStmt = p.settle (Parse.nameStmt p.stop t (op :: us)) := by
  have hcurrent : p.current = t := by rw [current, htokens, List.headD_cons]
  rw [Parser.nameStmt, hcurrent, htokens, List.tail_cons]

theorem Parser.exprStmt_eq_settle :
    p.exprStmt = p.settle (Parse.exprStmt p.stop t (op :: us)) := by
  have hcurrent : p.current = t := by rw [current, htokens, List.headD_cons]
  rw [Parser.exprStmt, hcurrent, htokens, List.tail_cons]

theorem Parser.nameStmt_of_arguments (hop : op.kind = .leftParen) {es : List (Expr Token)}
    {rest : List Token} (h : (Parse.arguments p.stop us).outcome = .done es rest) :
    ∃ rp, rp.kind = .rightParen ∧
      p.nameStmt =
        (some (.expression t (.call op (.ofToken t) es)), { p with tokens := rp :: rest }) := by
  obtain ⟨as, rfl, has⟩ := arguments_reads p.stop us es rest h
  obtain ⟨vs, rp, rfl, hrp⟩ := has.exists_concat
  have hlast : p.tokens = (t :: op :: vs) ++ rp :: rest := by rw [htokens]; simp
  have hdone := outcome_nameStmt_of_call p.stop (t := t) (vs ++ [rp] ++ rest) hop
  rw [h, Outcome.map_done] at hdone
  refine ⟨rp, hrp, ?_⟩
  rw [nameStmt_eq_settle htokens, settle_of_done p hdone, keepLast_append hlast]

end

/-- A call that is read as a statement of its own, from a name before a parenthesis, against the
same tokens read as a bare expression. If the call fails then so does the expression, with the same
diagnostics and at the same token. If it succeeds, on the closing parenthesis, then the expression
is the same statement and leaves the parser in the same place just if the token behind that
parenthesis binds nothing. -/
theorem Parser.nameStmt_agrees_exprStmt (p : Parser) (hname : p.current.kind = .identifier)
    (hcall : p.peek.kind = .leftParen) :
    (p.nameStmt.1 = none → p.exprStmt = p.nameStmt) ∧
      ∀ s, p.nameStmt.1 = some s → p.nameStmt.2.current.kind = .rightParen ∧
        (p.exprStmt = p.nameStmt ↔ Precedence.of p.nameStmt.2.peek.kind = .lowest) := by
  obtain ⟨t, op, us, htokens⟩ : ∃ t op us, p.tokens = t :: op :: us := by
    obtain ⟨t, vs, htokens, -⟩ := tokens_of_current hname (by decide)
    cases vs with
    | nil => simp [peek, htokens] at hcall
    | cons op us => exact ⟨t, op, us, htokens⟩
  have ht : t.kind = .identifier := by simpa [current, htokens] using hname
  have hop : op.kind = .leftParen := by simpa [peek, htokens] using hcall
  have hexpr := outcome_exprStmt_of_call p.stop us ht hop
  have hstmt := outcome_nameStmt_of_call p.stop (t := t) us hop
  cases hargs : (Parse.arguments p.stop us).outcome with
  | failed d halt =>
    rw [hargs] at hexpr hstmt
    have heq : p.exprStmt = p.nameStmt := by
      rw [exprStmt_eq_settle htokens, nameStmt_eq_settle htokens]
      exact settle_congr p (hexpr.trans hstmt.symm)
    refine ⟨fun _ => heq, fun s hs => ?_⟩
    rw [nameStmt_eq_settle htokens, settle_of_failed p hstmt] at hs
    cases hs
  | done es rest =>
    rw [hargs] at hexpr hstmt
    obtain ⟨rp, hrp, hname⟩ := nameStmt_of_arguments htokens hop hargs
    refine ⟨fun hnone => ?_, fun s _ => ⟨?_, ?_⟩⟩
    · rw [hname] at hnone
      cases hnone
    · rw [hname]
      exact hrp
    · have hlength : (op :: us).length < p.tokens.length := by simp [htokens]
      have hinjective : Function.Injective (Stmt.expression t) :=
        fun _ _ h => (Stmt.expression.inj h).2
      have hagree : p.exprStmt = p.nameStmt ↔ Stops .lowest (ahead rest none) := by
        rw [exprStmt_eq_settle htokens, nameStmt_eq_settle htokens, settle_eq_iff hlength hstmt,
          hexpr, Outcome.bind_done, Outcome.map_eq_done_of_injective hinjective,
          outcome_extend_eq_done_iff]
      rw [hagree, hname, stops_iff p.stop]
      exact Precedence.le_lowest_iff

theorem Parser.nameStmt_agrees_exprStmt_minus :
    let p := Parser.ofText "f(a, g(1)) - b" none
    let q := Parser.ofText "f(a, g(1))\n- b" none
    let r := Parser.ofText "f(a, g(1 2)) - b" none
    (p.nameStmt.1.isSome ∧ p.exprStmt ≠ p.nameStmt) ∧
      (q.nameStmt.1.isSome ∧ q.exprStmt = q.nameStmt) ∧
      r.nameStmt.1 = none ∧ r.exprStmt = r.nameStmt := by
  have hsome : (Parser.ofText "f(a, g(1)) - b" none).nameStmt.1.isSome = true ∧
      (Parser.ofText "f(a, g(1))\n- b" none).nameStmt.1.isSome = true := by decide +kernel
  have hnone : (Parser.ofText "f(a, g(1 2)) - b" none).nameStmt.1 = none := by
    rw [← Option.isNone_iff_eq_none]
    decide +kernel
  refine ⟨⟨hsome.1, ?_⟩, ⟨hsome.2, ?_⟩, hnone, ?_⟩
  · obtain ⟨s, hs⟩ := Option.isSome_iff_exists.1 hsome.1
    have hagree := ((nameStmt_agrees_exprStmt _ (by decide +kernel) (by decide +kernel)).2 s hs).2
    rw [ne_eq, hagree]
    decide +kernel
  · obtain ⟨s, hs⟩ := Option.isSome_iff_exists.1 hsome.2
    have hagree := ((nameStmt_agrees_exprStmt _ (by decide +kernel) (by decide +kernel)).2 s hs).2
    rw [hagree]
    decide +kernel
  · exact (nameStmt_agrees_exprStmt _ (by decide +kernel) (by decide +kernel)).1 hnone

end LuaSyntax

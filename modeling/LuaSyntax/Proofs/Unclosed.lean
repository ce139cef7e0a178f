import LuaSyntax.Proofs.Recovery

/-! Blocks that the input leaves open. Each is reported once, at the end of input and from the
innermost outwards, and the statements in them are lost: the program is what stands before the
outermost. -/

namespace LuaSyntax

def Kind.terminator : Kind → Kind
  | kwRepeat => kwUntil
  | _ => kwEnd

def Diagnostic.unclosed (stop : Position) (construct : Kind) : Diagnostic :=
  ⟨.unclosedBlock construct.text construct.terminator.text, stop⟩

namespace Grammar

structure WholeLines (ss : List (Stmt Token)) (ts : List Token) : Prop where
  reads : ∃ stop, Parsed.ofTokens stop ts = ⟨ss, []⟩
  line : ts = [] ∨ EndsLine ts

inductive OpenBranch : List Token → Prop
  | consequence {c cs th} (hc : Expression c cs) (hth : th.kind = .kwThen) :
      OpenBranch (cs ++ [th])
  | otherwise {c cs th ss bs e} (hc : Expression c cs) (hth : th.kind = .kwThen)
      (hss : WholeLines ss bs) (he : e.kind = .kwElse) : OpenBranch (cs ++ th :: (bs ++ [e]))
  | branch {c cs th ss bs e us} (hc : Expression c cs) (hth : th.kind = .kwThen)
      (hss : WholeLines ss bs) (he : e.kind = .kwElseif) (hus : OpenBranch us) :
      OpenBranch (cs ++ th :: (bs ++ e :: us))

inductive Opens : Kind → List Token → Prop
  | cond {t us} (ht : t.kind = .kwIf) (hus : OpenBranch us) : Opens .kwIf (t :: us)
  | whileLoop {t c cs d} (ht : t.kind = .kwWhile) (hc : Expression c cs) (hd : d.kind = .kwDo) :
      Opens .kwWhile (t :: (cs ++ [d]))
  | forLoop {t h hs} (ht : t.kind = .kwFor) (hh : ForHead h hs) : Opens .kwFor (t :: hs)
  | repeatLoop {t} (ht : t.kind = .kwRepeat) : Opens .kwRepeat [t]
  | function {t h hs} (ht : t.kind = .kwFunction) (hh : FunctionHead h hs) :
      Opens .kwFunction (t :: hs)

/-- Lines that are the statements `p`, and behind them the constructs, each open inside the one
before it and with lines of its own. -/
inductive LeftOpen : Program Token → List Kind → List Token → Prop
  | lines {p ts} (hts : WholeLines p ts) : LeftOpen p [] ts
  | construct {p q k ks ts hs us} (hts : WholeLines p ts) (hhs : Opens k hs)
      (hus : LeftOpen q ks us) : LeftOpen p (k :: ks) (ts ++ (hs ++ us))

/-! Whole lines are statements before anything else. -/

mutual

theorem InsertedBranch.behind_ne_nil : ∀ {new : List (Stmt Token)} {t : Token} {s s' : Stmt Token}
    {as bs : List Token}, InsertedBranch new t s s' as bs → bs ≠ []
  | _, _, _, _, _, _, .consequence _ _ _ ha => by
    obtain ⟨t, us, rfl, -⟩ := ha.exists_cons
    simp
  | _, _, _, _, _, _, .alternative _ _ _ ha => ha.behind_ne_nil

theorem InsertedAlternative.behind_ne_nil : ∀ {new : List (Stmt Token)}
    {a a' : Option (Block Token (Stmt Token))} {as bs : List Token},
    InsertedAlternative new a a' as bs → bs ≠ []
  | _, _, _, _, _, .block _ _ _ => by simp
  | _, _, _, _, _, .branch _ hs => hs.behind_ne_nil

end

theorem InsertedStmt.behind_ne_nil {new : List (Stmt Token)} {s s' : Stmt Token}
    {as bs : List Token} {next : Option Kind} (h : InsertedStmt new s s' as bs next) :
    bs ≠ [] := by
  cases h with
  | cond ht hs => exact hs.behind_ne_nil
  | whileLoop | forLoop | repeatLoop | function => simp

theorem Statement.not_endsLine {s : Stmt Token} {ts : List Token} {next : Option Kind}
    (h : Statement s ts next) : ¬EndsLine ts := by
  intro hline
  -- a cut behind a line end would lie inside the statement, but there is nothing behind it
  obtain ⟨s', hs'⟩ := h.exists_inserted [] ts [] (List.append_nil ts).symm hline
  exact hs'.behind_ne_nil rfl

theorem Statements.before_any {ss : List (Stmt Token)} {ts : List Token} {next : Option Kind}
    (h : Statements ss ts next) (hline : ts = [] ∨ EndsLine ts) (next' : Option Kind) :
    Statements ss ts next' := by
  match h with
  | .nil => exact .nil
  | @Statements.separator t ss us _ ht hss =>
    refine .separator ht (hss.before_any ?_ next')
    by_cases hus : us = []
    · exact .inl hus
    · exact .inr ((endsLine_append [t] hus).1 (hline.resolve_left (List.cons_ne_nil t us)))
  | @Statements.cons s vs ss us _ hs hss =>
    obtain ⟨t, ws, rfl, -⟩ := hs.exists_cons
    have hends : EndsLine (t :: ws ++ us) := hline.resolve_left (List.cons_ne_nil t (ws ++ us))
    cases us with
    | nil =>
      rw [List.append_nil] at hends
      exact absurd hends hs.not_endsLine
    | cons u us =>
      have htail := (endsLine_append _ (List.cons_ne_nil u us)).1 hends
      exact .cons hs (hss.before_any (.inr htail) next')

theorem WholeLines.statements {ss : List (Stmt Token)} {ts : List Token} (h : WholeLines ss ts)
    (next : Option Kind) : Statements ss ts next := by
  obtain ⟨stop, hreads⟩ := h.reads
  have hsentence := Parsed.sentence_of_clean stop ts (congrArg Parsed.diagnostics hreads)
  rw [hreads] at hsentence
  exact Statements.before_any hsentence h.line next

theorem Opens.exists_cons {k : Kind} {hs : List Token} (h : Opens k hs) :
    ∃ t us, hs = t :: us ∧ t.kind.opensBlock = true := by
  cases h with
  | cond ht | whileLoop ht | forLoop ht | repeatLoop ht | function ht =>
    exact ⟨_, _, rfl, by rw [ht]; rfl⟩

end Grammar

open Grammar

namespace Parse

variable {stop : Position} {log : List Diagnostic} {d : Diagnostic} {halt : Halt}

/-! A failure in a block is one of the statement that the block is in. -/

theorem run_block_bind_of_failed {α : Type} {construct terminator : Kind} {rest : List Token}
    (h : (statements stop construct terminator rest).run = ⟨log, .failed d halt⟩)
    (opener : Token) (f : Block Token (Stmt Token) → List Token → Run α) :
    (block stop construct terminator opener rest).run.bind f = ⟨log, .failed d halt⟩ := by
  rw [run_block, h, Run.map_mk, Outcome.map_failed, Run.bind_failed]

theorem run_block_of_wholeLines {construct terminator : Kind} {ss : List (Stmt Token)}
    {bs : List Token} {e : Token} {k : Kind} (opener : Token) (h : WholeLines ss bs)
    (he : e.kind = k) (hk : k.isBlockEnd = true) (rest : List Token) :
    (block stop construct terminator opener (bs ++ e :: rest)).run =
      ⟨[], .done ⟨opener, ss⟩ (e :: rest)⟩ :=
  run_block_append stop opener he hk
    (run_statements_append stop (h.statements _) construct terminator (e :: rest) rfl)

theorem run_condStmt_of_then {c : Expr Token} {cs : List Token} {th : Token}
    (hc : Expression c cs) (hth : th.kind = .kwThen) (t : Token) (rest : List Token) :
    (condStmt stop t (cs ++ th :: rest)).run =
      (block stop .kwIf .kwEnd th rest).run.bind fun consequence us =>
        (alternative stop us).run.map (.cond t c consequence) := by
  rw [run_condStmt, outcome_expression_of_kind stop hc hth (by decide), Outcome.bind_run_done,
    outcome_expect_of_kind hth, Outcome.bind_run_done]

theorem run_condStmt_of_open {us rest : List Token} (h : OpenBranch us)
    (hrest : (statements stop .kwIf .kwEnd rest).run = ⟨log, .failed d halt⟩) (t : Token) :
    (condStmt stop t (us ++ rest)).run = ⟨log, .failed d halt⟩ := by
  induction h generalizing t with
  | @consequence c cs th hc hth =>
    have hshape : cs ++ [th] ++ rest = cs ++ th :: rest := by simp
    rw [hshape, run_condStmt_of_then hc hth]
    exact run_block_bind_of_failed hrest th _
  | @otherwise c cs th ss bs e hc hth hss he =>
    have hshape : cs ++ th :: (bs ++ [e]) ++ rest = cs ++ th :: (bs ++ e :: rest) := by simp
    have helseif : ¬Kind.kwElse = .kwElseif := by decide
    rw [hshape, run_condStmt_of_then hc hth, run_block_of_wholeLines th hss he (by decide),
      Run.bind_done, run_alternative_cons, he, if_neg helseif, if_pos rfl,
      run_block_bind_of_failed hrest]
    rfl
  | @branch c cs th ss bs e us hc hth hss he hus ih =>
    have hshape : cs ++ th :: (bs ++ e :: us) ++ rest = cs ++ th :: (bs ++ e :: (us ++ rest)) := by
      simp
    -- an `elseif` is a conditional of its own, which fails in the place of the whole
    rw [hshape, run_condStmt_of_then hc hth, run_block_of_wholeLines th hss he (by decide),
      Run.bind_done, run_alternative_cons, he, if_pos rfl, ih e]
    rfl

/-- A construct fails as the block does that it opens, and adds no diagnostic. -/
theorem run_stmtFrom_of_opens {k : Kind} {t : Token} {us rest : List Token}
    (h : Opens k (t :: us))
    (hrest : (statements stop k k.terminator rest).run = ⟨log, .failed d halt⟩) :
    (stmtFrom stop t (us ++ rest)).run = ⟨log, .failed d halt⟩ := by
  cases h with
  | cond ht hus =>
    rw [run_stmtFrom, ht]
    exact run_condStmt_of_open hus hrest t
  | @whileLoop t c cs d' ht hc hd =>
    have hshape : cs ++ [d'] ++ rest = cs ++ d' :: rest := by simp
    rw [hshape, run_stmtFrom, ht]
    simp only
    rw [run_whileStmt, outcome_expression_of_kind stop hc hd (by decide), Outcome.bind_run_done,
      outcome_expect_of_kind hd, Outcome.bind_run_done]
    exact run_block_bind_of_failed hrest d' _
  | forLoop ht hh =>
    rw [run_stmtFrom, ht]
    simp only
    rw [run_forStmt, outcome_forHeader_append stop hh, Outcome.bind_run_done]
    exact run_block_bind_of_failed hrest _ _
  | repeatLoop ht =>
    rw [List.nil_append, run_stmtFrom, ht]
    simp only
    rw [run_repeatStmt]
    exact run_block_bind_of_failed hrest t _
  | function ht hh =>
    rw [run_stmtFrom, ht]
    simp only
    rw [run_functionStmt, outcome_functionHeader_append stop hh, Outcome.bind_run_done]
    exact run_block_bind_of_failed hrest _ _

theorem run_statements_leftOpen (stop : Position) {p : Program Token} {ks : List Kind}
    {ts : List Token} (h : LeftOpen p ks ts) (construct terminator : Kind) :
    (statements stop construct terminator ts).run =
      ⟨ks.reverse.map (.unclosed stop),
        .failed ⟨.unclosedBlock construct.text terminator.text, stop⟩ (.on [])⟩ := by
  induction h generalizing construct terminator with
  | @lines p ts hts =>
    have happend := run_statements_append stop (hts.statements none) construct terminator [] rfl
    rw [List.append_nil, run_statements_nil] at happend
    exact happend
  | @construct p q k ks ts hs us hts hhs hus ih =>
    obtain ⟨t, vs, rfl, ht⟩ := hhs.exists_cons
    obtain ⟨hsep, hend⟩ := Kind.not_isSeparator_of_opensBlock ht
    have hstmt := run_stmtFrom_of_opens hhs (ih k k.terminator)
    have hresume : (Halt.on []).resumeInBlock = [] := rfl
    rw [run_statements_append stop (hts.statements _) construct terminator (t :: vs ++ us) rfl,
      List.cons_append, run_statements_of_failed stop construct terminator hend hsep hstmt, hresume,
      run_statements_nil]
    simp [Diagnostic.unclosed]

end Parse

open Parse

theorem Parsed.ofTokens_leftOpen {p : Program Token} {ks : List Kind} {ts : List Token}
    (stop : Position) (h : LeftOpen p ks ts) :
    ofTokens stop ts = ⟨p, ks.reverse.map (.unclosed stop)⟩ := by
  cases h with
  | lines hts => exact ofTokens_of_sentence stop (hts.statements none)
  | @construct p q k ks ts hs us hts hhs hus =>
    obtain ⟨t, vs, rfl, ht⟩ := hhs.exists_cons
    have hsep := (Kind.not_isSeparator_of_opensBlock ht).1
    have hblock := run_statements_leftOpen stop hus k k.terminator
    have hstmt := run_stmtFrom_of_opens hhs hblock
    have hresume : (Halt.on []).resume = [] := rfl
    rw [ofTokens_append stop (hts.statements _) (t :: vs ++ us) rfl, List.cons_append,
      ofTokens_of_failed stop hsep hstmt, hresume, ofTokens_nil]
    simp [Diagnostic.unclosed]

/-- What is left open at the end of a source is reported once for each construct, the innermost
first, and the program is what stands before the outermost. -/
theorem parse_leftOpen {p : Program Token} {ks : List Kind} (source : String)
    (file : Option String) (h : LeftOpen p ks (tokenize source file).dropLast) :
    parse source file = ⟨p, ks.reverse.map (.unclosed (scan source file).stop)⟩ := by
  rw [dropLast_tokenize] at h
  exact Parsed.ofTokens_leftOpen _ h

theorem parse_leftOpen_nested :
    let t (k : Kind) (v : String) (l i j : UInt32) : Token :=
      ⟨k, v, ⟨l, i, "shell"⟩, ⟨l, j, "shell"⟩⟩
    let x := t .identifier "x" 1 1 2
    parse "x()\nif a then\ny()\nelse repeat\nfor i = a, b do\nz()\n" none =
      ⟨[.expression x (.call (t .leftParen "(" 1 2 3) ⟨x, "x"⟩ [])],
        [⟨.unclosedBlock "for" "end", ⟨7, 1, "shell"⟩⟩,
          ⟨.unclosedBlock "repeat" "until", ⟨7, 1, "shell"⟩⟩,
          ⟨.unclosedBlock "if" "end", ⟨7, 1, "shell"⟩⟩]⟩ := by
  intro t x
  let nl (l i : UInt32) : Token := ⟨.newline, "", ⟨l, i, "shell"⟩, ⟨l + 1, 1, "shell"⟩⟩
  let xs := [x, t .leftParen "(" 1 2 3, t .rightParen ")" 1 3 4, nl 1 4]
  let ys := [nl 2 10, t .identifier "y" 3 1 2, t .leftParen "(" 3 2 3, t .rightParen ")" 3 3 4,
    nl 3 4]
  let zs := [nl 5 16, t .identifier "z" 6 1 2, t .leftParen "(" 6 2 3, t .rightParen ")" 6 3 4,
    nl 6 4]
  let ifs := t .kwIf "if" 2 1 3 :: ([t .identifier "a" 2 4 5] ++ t .kwThen "then" 2 6 10 ::
    (ys ++ [t .kwElse "else" 4 1 5]))
  let fors := t .kwFor "for" 5 1 4 :: t .identifier "i" 5 5 6 :: t .assign "=" 5 7 8 ::
    ([t .identifier "a" 5 9 10] ++ t .comma "," 5 10 11 ::
      ([t .identifier "b" 5 12 13] ++ ([] ++ [t .kwDo "do" 5 14 16])))
  have hlines : ∀ {ss ts}, Sentence ss ts → EndsLine ts → WholeLines ss ts :=
    fun h hline => ⟨⟨⟨7, 1, "shell"⟩, Parsed.ofTokens_of_sentence _ h⟩, .inr hline⟩
  have hnone : WholeLines [] [] := ⟨⟨⟨7, 1, "shell"⟩, Parsed.ofTokens_nil _⟩, .inl rfl⟩
  have hx : WholeLines _ xs := hlines (.cons (.call rfl rfl (.none rfl)) (.separator rfl .nil)) rfl
  have hy : WholeLines _ ys :=
    hlines (.separator rfl (.cons (.call rfl rfl (.none rfl)) (.separator rfl .nil))) rfl
  have hz : WholeLines _ zs :=
    hlines (.separator rfl (.cons (.call rfl rfl (.none rfl)) (.separator rfl .nil))) rfl
  have hif : Opens .kwIf ifs := .cond rfl (.otherwise ⟨_, .literal rfl⟩ rfl hy rfl)
  have hfor : Opens .kwFor fors :=
    .forLoop rfl (.mk rfl rfl ⟨_, .literal rfl⟩ rfl ⟨_, .literal rfl⟩ .omitted rfl)
  have hopen : LeftOpen _ [.kwIf, .kwRepeat, .kwFor]
      (xs ++ (ifs ++ ([] ++ ([t .kwRepeat "repeat" 4 6 12] ++ ([nl 4 12] ++ (fors ++ zs)))))) :=
    .construct hx hif (.construct hnone (.repeatLoop rfl)
      (.construct (hlines (.separator rfl .nil) rfl) hfor (.lines hz)))
  have htokens : (tokenize "x()\nif a then\ny()\nelse repeat\nfor i = a, b do\nz()\n"
        none).dropLast =
      xs ++ (ifs ++ ([] ++ ([t .kwRepeat "repeat" 4 6 12] ++ ([nl 4 12] ++ (fors ++ zs))))) := by
    decide +kernel
  have hstop : (scan "x()\nif a then\ny()\nelse repeat\nfor i = a, b do\nz()\n" none).stop =
      ⟨7, 1, "shell"⟩ := by decide +kernel
  rw [← htokens] at hopen
  rw [parse_leftOpen _ none hopen, hstop]
  rfl

end LuaSyntax

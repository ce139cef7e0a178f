import LuaSyntax.Proofs.Composition
import LuaSyntax.Proofs.Insertion

/-! Recovery from a line that is wrong. A line that opens and closes no block may stand between
any two lines of a program, in blocks at any depth: what it gives on its own is put into the
program there, and all else is read as before. -/

namespace LuaSyntax

open Grammar Parse

/-- Before anything else and in any block, reading the tokens gives `p` and then what follows. -/
structure ReadsAnywhere (stop : Position) (gs : List Token) (p : Parsed) : Prop where
  program : ∀ us, Parsed.ofTokens stop (gs ++ us) = p ++ Parsed.ofTokens stop us
  block : ∀ construct terminator us, (statements stop construct terminator (gs ++ us)).run =
    p.before (statements stop construct terminator us).run

theorem Kind.not_isSeparator_of_opensBlock {k : Kind} (h : k.opensBlock = true) :
    ¬k.isSeparator = true ∧ ¬k.isBlockEnd = true := by
  revert h
  cases k <;> decide

theorem Grammar.InsertedAlternative.exists_cons {new : List (Stmt Token)}
    {a a' : Option (Block Token (Stmt Token))} {as bs : List Token}
    (h : InsertedAlternative new a a' as bs) :
    ∃ t us, as = t :: us ∧ t.kind.isBlockEnd = true := by
  cases h with
  | block ht | branch ht => exact ⟨_, _, rfl, by rw [ht]; rfl⟩

namespace Parse

variable {stop : Position} {gs : List Token} {p : Parsed}

theorem run_block_of_before {construct terminator : Kind} (opener : Token) {e : Token} {k : Kind}
    {qs : List (Stmt Token)} {log : List Diagnostic} {ts rest : List Token} (he : e.kind = k)
    (hk : k.isBlockEnd = true)
    (h : (statements stop construct terminator ts).run =
      Parsed.before ⟨qs, log⟩ (statements stop construct terminator (e :: rest)).run) :
    (block stop construct terminator opener ts).run = ⟨log, .done ⟨opener, qs⟩ (e :: rest)⟩ := by
  have hend : e.kind.isBlockEnd = true := by rwa [he]
  rw [run_block, h, run_statements_of_blockEnd stop _ _ rest hend]
  simp [Parsed.before]

mutual

theorem run_stmtFrom_inserted (hgs : ReadsAnywhere stop gs p) :
    ∀ {s s' : Stmt Token} {as bs : List Token} {next : Option Kind},
    InsertedStmt p.program s s' as bs next → ∀ rest, ahead rest none = next →
    ∃ t vs, as = t :: vs ∧ t.kind.opensBlock = true ∧
      (stmtFrom stop t (vs ++ (gs ++ (bs ++ rest)))).run = ⟨p.diagnostics, .done s' rest⟩
  | _, _, _, _, _, @InsertedStmt.cond _ t s s' as bs next ht hs, rest, _ => by
    have hrun := run_condStmt_inserted hgs hs rest
    refine ⟨t, as, rfl, by rw [ht]; rfl, ?_⟩
    rw [run_stmtFrom, ht]
    exact hrun
  | _, _, _, _, _, @InsertedStmt.whileLoop _ t c cs d ss qs as bs e next ht hc hd hss he, rest,
      _ => by
    have hbody := run_block_of_before d he (by decide)
      (run_statements_inserted hgs hss .kwWhile .kwEnd (e :: rest) (congrArg some he))
    have hshape : cs ++ d :: as ++ (gs ++ (bs ++ [e] ++ rest)) =
        cs ++ d :: (as ++ (gs ++ (bs ++ e :: rest))) := by simp
    refine ⟨t, _, rfl, by rw [ht]; rfl, ?_⟩
    rw [hshape, run_stmtFrom, ht]
    simp only
    rw [run_whileStmt, outcome_expression_of_kind stop hc hd (by decide), Outcome.bind_run_done,
      outcome_expect_of_kind hd, Outcome.bind_run_done, hbody, Run.bind_done,
      outcome_closing_of_kind stop he, Outcome.run_after, Outcome.map_done]
  | _, _, _, _, _, @InsertedStmt.forLoop _ t h hs ss qs as bs e next ht hh hss he, rest, _ => by
    have hbody := run_block_of_before h.opener he (by decide)
      (run_statements_inserted hgs hss .kwFor .kwEnd (e :: rest) (congrArg some he))
    have hshape : hs ++ as ++ (gs ++ (bs ++ [e] ++ rest)) =
        hs ++ (as ++ (gs ++ (bs ++ e :: rest))) := by simp
    refine ⟨t, _, rfl, by rw [ht]; rfl, ?_⟩
    rw [hshape, run_stmtFrom, ht]
    simp only
    rw [run_forStmt, outcome_forHeader_append stop hh, Outcome.bind_run_done, hbody, Run.bind_done,
      outcome_closing_of_kind stop he, Outcome.run_after, Outcome.map_done]
  | _, _, _, _, _, @InsertedStmt.repeatLoop _ t ss qs as bs u c cs next ht hss hu hc hnext, rest,
      hrest => by
    have hbody := run_block_of_before t hu (by decide)
      (run_statements_inserted hgs hss .kwRepeat .kwUntil (u :: (cs ++ rest)) (congrArg some hu))
    have hshape : as ++ (gs ++ (bs ++ u :: cs ++ rest)) =
        as ++ (gs ++ (bs ++ u :: (cs ++ rest))) := by simp
    refine ⟨t, _, rfl, by rw [ht]; rfl, ?_⟩
    rw [← hrest] at hnext
    rw [hshape, run_stmtFrom, ht]
    simp only
    rw [run_repeatStmt, hbody, Run.bind_done, outcome_closing_of_kind stop hu,
      Outcome.bind_run_done, outcome_expression stop hc hnext, Outcome.run_after, Outcome.map_done]
  | _, _, _, _, _, @InsertedStmt.function _ t h hs ss qs as bs e next ht hh hss he, rest, _ => by
    have hbody := run_block_of_before h.opener he (by decide)
      (run_statements_inserted hgs hss .kwFunction .kwEnd (e :: rest) (congrArg some he))
    have hshape : hs ++ as ++ (gs ++ (bs ++ [e] ++ rest)) =
        hs ++ (as ++ (gs ++ (bs ++ e :: rest))) := by simp
    refine ⟨t, _, rfl, by rw [ht]; rfl, ?_⟩
    rw [hshape, run_stmtFrom, ht]
    simp only
    rw [run_functionStmt, outcome_functionHeader_append stop hh, Outcome.bind_run_done, hbody,
      Run.bind_done, outcome_closing_of_kind stop he, Outcome.run_after, Outcome.map_done]

theorem run_statements_inserted (hgs : ReadsAnywhere stop gs p) :
    ∀ {ss qs : List (Stmt Token)} {as bs : List Token} {next : Option Kind},
    Inserted p.program ss qs as bs next →
    ∀ (construct terminator : Kind) (rest : List Token), ahead rest none = next →
    (statements stop construct terminator (as ++ (gs ++ (bs ++ rest)))).run =
      Parsed.before ⟨qs, p.diagnostics⟩ (statements stop construct terminator rest).run
  | _, _, _, _, _, @Inserted.here _ ss bs next hss, construct, terminator, rest, hrest => by
    rw [List.nil_append, hgs.block, run_statements_append stop hss construct terminator rest hrest,
      Parsed.before_map]
  | _, _, _, _, _, @Inserted.separator _ t ss qs as bs next ht h, construct, terminator, rest,
      hrest => by
    rw [List.cons_append, run_statements_of_separator stop _ _ _ ht]
    exact run_statements_inserted hgs h construct terminator rest hrest
  | _, _, _, _, _, @Inserted.cons _ s ts ss qs a as bs next hs h, construct, terminator, rest,
      hrest => by
    have hmore := run_statements_inserted hgs h construct terminator rest hrest
    obtain ⟨t, vs, rfl, hrun⟩ :=
      stmtReadsBack_of_statement stop hs (a :: as ++ (gs ++ (bs ++ rest))) rfl
    obtain ⟨_, _, ⟨⟩, hsep, hend⟩ := hs.exists_cons
    have hshape : t :: vs ++ a :: as ++ (gs ++ (bs ++ rest)) =
        t :: (vs ++ (a :: as ++ (gs ++ (bs ++ rest)))) := by simp
    rw [hshape, run_statements_of_done stop construct terminator (by simp [hend]) (by simp [hsep])
      hrun, hmore, Parsed.before_cons]
    rfl
  | _, _, _, _, _, @Inserted.inside _ s s' ss as bs us next hs hss, construct, terminator, rest,
      hrest => by
    have hahead : ahead (us ++ rest) none = ahead us next := by rw [ahead_append, hrest]
    have hmore := run_statements_append stop hss construct terminator rest hrest
    obtain ⟨t, vs, rfl, ht, hrun⟩ := run_stmtFrom_inserted hgs hs (us ++ rest) hahead
    obtain ⟨hsep, hend⟩ := Kind.not_isSeparator_of_opensBlock ht
    have hshape : t :: vs ++ (gs ++ (bs ++ us ++ rest)) =
        t :: (vs ++ (gs ++ (bs ++ (us ++ rest)))) := by simp
    rw [hshape, run_statements_of_done stop construct terminator hend hsep hrun, hmore,
      Run.map_map]
    rfl

theorem run_condStmt_inserted (hgs : ReadsAnywhere stop gs p) :
    ∀ {t : Token} {s s' : Stmt Token} {as bs : List Token},
    InsertedBranch p.program t s s' as bs → ∀ rest,
    (condStmt stop t (as ++ (gs ++ (bs ++ rest)))).run = ⟨p.diagnostics, .done s' rest⟩
  | _, _, _, _, _, @InsertedBranch.consequence _ t c cs th ss qs as bs a us hc hth hss ha,
      rest => by
    have hmore := run_statements_inserted hgs hss .kwIf .kwEnd (us ++ rest)
    have halt := run_alternative_append stop ha rest
    obtain ⟨u, us, rfl, hu⟩ := ha.exists_cons
    rw [List.cons_append] at hmore halt
    have hbody := run_block_of_before th rfl hu (hmore rfl)
    have hshape : cs ++ th :: as ++ (gs ++ (bs ++ u :: us ++ rest)) =
        cs ++ th :: (as ++ (gs ++ (bs ++ u :: (us ++ rest)))) := by simp
    rw [hshape, run_condStmt, outcome_expression_of_kind stop hc hth (by decide),
      Outcome.bind_run_done, outcome_expect_of_kind hth, Outcome.bind_run_done, hbody,
      Run.bind_done, halt, Run.map_mk, Run.after_mk, List.append_nil, Outcome.map_done]
  | _, _, _, _, _, @InsertedBranch.alternative _ t c cs th ss ts a a' as bs hc hth hss ha,
      rest => by
    have halt := run_alternative_inserted hgs ha rest
    obtain ⟨u, us, rfl, hu⟩ := ha.exists_cons
    have hbody := run_block_append stop th rfl hu
      (run_statements_append stop hss .kwIf .kwEnd (u :: (us ++ (gs ++ (bs ++ rest)))) rfl)
    have hshape : cs ++ th :: (ts ++ u :: us) ++ (gs ++ (bs ++ rest)) =
        cs ++ th :: (ts ++ u :: (us ++ (gs ++ (bs ++ rest)))) := by simp
    rw [List.cons_append] at halt
    rw [hshape, run_condStmt, outcome_expression_of_kind stop hc hth (by decide),
      Outcome.bind_run_done, outcome_expect_of_kind hth, Outcome.bind_run_done, hbody,
      Run.bind_done, halt]
    rfl

theorem run_alternative_inserted (hgs : ReadsAnywhere stop gs p) :
    ∀ {a a' : Option (Block Token (Stmt Token))} {as bs : List Token},
    InsertedAlternative p.program a a' as bs → ∀ rest,
    (alternative stop (as ++ (gs ++ (bs ++ rest)))).run = ⟨p.diagnostics, .done a' rest⟩
  | _, _, _, _, @InsertedAlternative.block _ t ss qs as bs e ht hss he, rest => by
    have helseif : ¬Kind.kwElse = .kwElseif := by decide
    have hbody := run_block_of_before t he (by decide)
      (run_statements_inserted hgs hss .kwIf .kwEnd (e :: rest) (congrArg some he))
    have hshape : t :: as ++ (gs ++ (bs ++ [e] ++ rest)) =
        t :: (as ++ (gs ++ (bs ++ e :: rest))) := by simp
    rw [hshape, run_alternative_cons, ht, if_neg helseif, if_pos rfl, hbody, Run.bind_done,
      outcome_closing_of_kind stop he, Outcome.run_after, Outcome.map_done]
  | _, _, _, _, @InsertedAlternative.branch _ t s s' as bs ht hs, rest => by
    rw [List.cons_append, run_alternative_cons, if_pos ht, run_condStmt_inserted hgs hs rest]
    rfl

end

end Parse

theorem Parsed.ofTokens_inserted {stop : Position} {gs : List Token} {p : Parsed}
    (hgs : ReadsAnywhere stop gs p) {ss qs : List (Stmt Token)} {as bs : List Token}
    {next : Option Kind} (h : Inserted p.program ss qs as bs next) (rest : List Token)
    (hrest : ahead rest none = next) :
    ofTokens stop (as ++ (gs ++ (bs ++ rest))) = ⟨qs, p.diagnostics⟩ ++ ofTokens stop rest := by
  match h with
  | @Inserted.here _ ss bs _ hss =>
    rw [List.nil_append, hgs.program, ofTokens_append stop hss rest hrest]
    simp [append_eq]
  | @Inserted.separator _ t ss qs as bs _ ht h =>
    rw [List.cons_append, ofTokens_of_separator stop _ ht]
    exact ofTokens_inserted hgs h rest hrest
  | @Inserted.cons _ s ts ss qs a as bs _ hs h =>
    have hmore := ofTokens_inserted hgs h rest hrest
    obtain ⟨t, vs, rfl, hrun⟩ :=
      stmtReadsBack_of_statement stop hs (a :: as ++ (gs ++ (bs ++ rest))) rfl
    obtain ⟨_, _, ⟨⟩, hsep, -⟩ := hs.exists_cons
    have hshape : t :: vs ++ a :: as ++ (gs ++ (bs ++ rest)) =
        t :: (vs ++ (a :: as ++ (gs ++ (bs ++ rest)))) := by simp
    rw [hshape, ofTokens_of_done stop (by simp [hsep]) hrun, hmore]
    rfl
  | @Inserted.inside _ s s' ss as bs us _ hs hss =>
    have hahead : ahead (us ++ rest) none = ahead us next := by rw [ahead_append, hrest]
    obtain ⟨t, vs, rfl, ht, hrun⟩ := run_stmtFrom_inserted hgs hs (us ++ rest) hahead
    obtain ⟨hsep, -⟩ := Kind.not_isSeparator_of_opensBlock ht
    have hshape : t :: vs ++ (gs ++ (bs ++ us ++ rest)) =
        t :: (vs ++ (gs ++ (bs ++ (us ++ rest)))) := by simp
    rw [hshape, ofTokens_of_done stop hsep hrun, ofTokens_append stop hss rest hrest]
    rfl

theorem readsAnywhere_line {gs : List Token} (hline : gs ≠ [] → EndsLine gs)
    (hfree : ∀ t ∈ gs, t.kind.boundsBlock = false) (stop outer : Position)
    (place : Position → Position) :
    ReadsAnywhere outer (gs.map (Token.move place)) ((Parsed.ofTokens stop gs).move place) where
  program us := (Parsed.line_embeds (m := ⟨place, stop, outer, us⟩) gs
    (fun hne => .inr (hline hne)) hfree).1
  block construct terminator us := (Parsed.line_embeds (m := ⟨place, stop, outer, us⟩) gs
    (fun hne => .inr (hline hne)) hfree).2 construct terminator

theorem Parsed.ofTokens_congr {ts us : List Token} (h : ts.map Token.content = us.map Token.content)
    (stop outer : Position) :
    (ofTokens stop ts).program.map (Stmt.map Token.content) =
        (ofTokens outer us).program.map (Stmt.map Token.content) ∧
      (ofTokens stop ts).diagnostics.map Diagnostic.problem =
        (ofTokens outer us).diagnostics.map Diagnostic.problem := by
  -- both are the same once all tokens are at one place
  have hmove : ∀ vs : List Token, vs.map (Token.move fun _ => stop) =
      (vs.map Token.content).map fun c => ⟨c.1, c.2, ⟨stop, stop⟩⟩ := by
    intro vs
    rw [List.map_map]
    rfl
  have hts := ofTokens_move (fun _ => stop) ⟨ts, stop⟩
  have hus := ofTokens_move (fun _ => stop) ⟨us, outer⟩
  simp only [ofScanned, Scanned.move, hmove, h] at hts hus
  have hsame := hts.symm.trans hus
  have hstmt : Stmt.map Token.content ∘ Stmt.map (Token.move fun _ => stop) =
      Stmt.map Token.content := funext fun s => Stmt.map_map _ _ s
  have hdiagnostic : Diagnostic.problem ∘ Diagnostic.move (fun _ => stop) =
      Diagnostic.problem := rfl
  constructor
  · have hprogram := congrArg (fun q => q.program.map (Stmt.map Token.content)) hsame
    simpa only [Parsed.move, List.map_map, hstmt] using hprogram
  · have hdiagnostics := congrArg (fun q => q.diagnostics.map Diagnostic.problem) hsame
    simpa only [Parsed.move, List.map_map, hdiagnostic] using hdiagnostics

theorem Grammar.exists_inserted (new : List (Stmt Token)) {ss : List (Stmt Token)}
    {as bs : List Token} {next : Option Kind} (h : Statements ss (as ++ bs) next)
    (has : as = [] ∨ EndsLine as) : ∃ qs, Inserted new ss qs as bs next := by
  rcases has with rfl | hline
  · exact ⟨new ++ ss, .here h⟩
  · exact h.exists_inserted new as bs rfl hline

theorem Parsed.ofTokens_insert_line {as bs bs' : List Token} (gs : List Token)
    {stop inner outer : Position}
    (hclean : (ofTokens stop (as ++ bs)).diagnostics = []) (has : as = [] ∨ EndsLine as)
    (hline : gs ≠ [] → EndsLine gs) (hfree : ∀ t ∈ gs, t.kind.boundsBlock = false)
    (hbs : bs'.map Token.content = bs.map Token.content) (place : Position → Position) :
    ∃ q, (∀ q', Inserted (ofTokens inner gs).program (ofTokens stop (as ++ bs)).program q' as bs
          none ↔ q' = q) ∧
      (ofTokens outer (as ++ (gs.map (Token.move place) ++ bs'))).program.map
          (Stmt.map Token.content) = q.map (Stmt.map Token.content) ∧
      (ofTokens outer (as ++ (gs.map (Token.move place) ++ bs'))).diagnostics =
        (ofTokens inner gs).diagnostics.map (Diagnostic.move place) := by
  have hread : ∀ place stop {bs} {p q : Program Token},
      Inserted ((ofTokens inner gs).move place).program p q as bs none →
      ofTokens stop (as ++ (gs.map (Token.move place) ++ bs)) =
        ⟨q, ((ofTokens inner gs).move place).diagnostics⟩ := by
    intro place stop bs p q hq
    have hinserted := ofTokens_inserted (readsAnywhere_line hline hfree inner stop place) hq [] rfl
    rwa [List.append_nil, ofTokens_nil, append_eq, List.append_nil, List.append_nil] at hinserted
  have hplain : ∀ q, Inserted (ofTokens inner gs).program (ofTokens stop (as ++ bs)).program q as
      bs none → (ofTokens stop (as ++ (gs.map (Token.move fun p => p) ++ bs))).program = q := by
    intro q hq
    rw [← move_id (ofTokens inner gs)] at hq
    exact congrArg program (hread _ stop hq)
  -- the program without the line is clean wherever its second part stands
  have hclean' : (ofTokens outer (as ++ bs')).diagnostics = [] := by
    have hsame : (as ++ bs').map Token.content = (as ++ bs).map Token.content := by
      rw [List.map_append, List.map_append, hbs]
    have hproblems := (ofTokens_congr hsame outer stop).2
    rw [hclean] at hproblems
    exact List.map_eq_nil_iff.1 hproblems
  obtain ⟨q, hq⟩ := exists_inserted (ofTokens inner gs).program
    (sentence_of_clean stop (as ++ bs) hclean) has
  obtain ⟨q', hq'⟩ := exists_inserted ((ofTokens inner gs).move place).program
    (sentence_of_clean outer (as ++ bs') hclean') has
  refine ⟨q, fun q' => ⟨fun h => (hplain q' h).symm.trans (hplain q hq), ?_⟩, ?_,
    congrArg diagnostics (hread place outer hq')⟩
  · rintro rfl
    exact hq
  have hcontent : (as ++ (gs.map (Token.move place) ++ bs')).map Token.content =
      (as ++ (gs.map (Token.move fun p => p) ++ bs)).map Token.content := by
    simp only [List.map_append, map_content_move, hbs]
  rw [(ofTokens_congr hcontent outer stop).1, hplain q hq]

theorem Parsed.ofTokens_lineFeed (stop : Position) (file : Option String) :
    ofTokens stop (scanChars ['\n'] file).tokens = ofTokens stop [] := by
  have hkinds : (scanChars ['\n'] file).tokens.map Token.kind = [.newline] := by
    rw [scanChars, Scanned.map_kind_ofLexemes, lexemes_cons]
    simp [Lexeme.first, Lexeme.isBlank]
  obtain ⟨t, htokens, ht⟩ := List.map_eq_singleton_iff.1 hkinds
  rw [htokens, ofTokens_of_separator stop [] (by rw [ht]; rfl)]

/-- A line that opens and closes no block costs nothing but itself, wherever it stands in a source
that is read without a diagnostic. -/
theorem parse_insert_line (a b g : String) (file : Option String)
    (hclean : (parse (a ++ b) file).diagnostics = []) (hcut : LineCut a.toList b.toList)
    (hg : ∀ c ∈ g.toList, c ≠ '\n' ∧ c ≠ '\r')
    (hline : (tokenize (g ++ "\n") file).dropLast.getLast?.map Token.kind = some .newline)
    (hfree : ∀ t ∈ tokenize (g ++ "\n") file, t.kind.boundsBlock = false) :
    ∃ bs q, (tokenize (a ++ b) file).dropLast = (tokenize a file).dropLast ++ bs ∧
      (∀ q', Inserted (parse (g ++ "\n") file).program (parse (a ++ b) file).program q'
        (tokenize a file).dropLast bs none ↔ q' = q) ∧
      (parse (a ++ g ++ "\n" ++ b) file).program.map (Stmt.map Token.content) =
        q.map (Stmt.map Token.content) ∧
      (parse (a ++ g ++ "\n" ++ b) file).diagnostics =
        (parse (g ++ "\n") file).diagnostics.map
          (Diagnostic.move (Position.down ((scan a file).stop.line - 1))) := by
  obtain ⟨hend, hplain⟩ := hcut.lineEnded
  have htext : (g ++ "\n").toList = g.toList ++ ['\n'] := by simp
  have hwhole : scan (a ++ g ++ "\n" ++ b) file =
      scanChars (a.toList ++ ((g ++ "\n").toList ++ b.toList)) file := by
    simp only [scan, String.toList_append, List.append_assoc]
  have hfront : scan (a ++ b) file = scanChars (a.toList ++ b.toList) file := by
    rw [← String.toList_append]
    rfl
  have has : (scan a file).tokens = [] ∨ EndsLine (scan a file).tokens := hcut.endsLine file
  simp only [dropLast_tokenize] at hline ⊢
  simp only [parse, Parsed.ofScanned, hwhole, hfront] at hclean ⊢
  by_cases hcontinued : Continues (lexemes a.toList) ((g ++ "\n").toList ++ b.toList)
  · -- the line is empty, and its line feed joins the carriage return before it
    have hempty : g.toList = [] := by
      rw [htext, List.append_assoc] at hcontinued
      exact eq_nil_of_continues hcontinued fun c hc => (hg c hc).1
    obtain rfl : g = "" := String.toList_inj.1 hempty
    have hsame : scanChars (a.toList ++ (("" ++ "\n").toList ++ b.toList)) file = _ :=
      scanChars_continued hcut ⟨hcontinued.1, rfl⟩ file
    have hab := (scanChars_append hend hplain file).1
    have hblank : Parsed.ofTokens (scan ("" ++ "\n") file).stop
        (scan ("" ++ "\n") file).tokens = _ := Parsed.ofTokens_lineFeed _ file
    rw [hab] at hclean
    rw [hsame, hab, hblank]
    obtain ⟨q, hq⟩ := Parsed.ofTokens_insert_line [] hclean has (fun hne => absurd rfl hne)
      (List.forall_mem_nil _) rfl _
    exact ⟨_, q, rfl, hq⟩
  · have hfeed : (g ++ "\n").toList.getLast? = some '\n' := by simp
    obtain ⟨bs, bs', hab, hagb, hbs⟩ := scanChars_insert hcut (lineEnded_of_getLast? hline hfeed)
      hcontinued (not_continues_of_lineFeed hfeed b.toList) file
    rw [hab] at hclean
    rw [hab, hagb]
    obtain ⟨q, hq⟩ := Parsed.ofTokens_insert_line _ hclean has (fun _ => hline)
      (fun t ht => hfree t (List.mem_append_left _ ht)) hbs _
    exact ⟨bs, q, rfl, hq⟩

theorem parse_insert_line_nested :
    ∃ bs q, (tokenize ("while x do\n if y then\n" ++ "z = 1\n end\nend") none).dropLast =
        (tokenize "while x do\n if y then\n" none).dropLast ++ bs ∧
      (∀ q', Inserted (parse ("w = 2; local = )" ++ "\n") none).program
        (parse ("while x do\n if y then\n" ++ "z = 1\n end\nend") none).program q'
        (tokenize "while x do\n if y then\n" none).dropLast bs none ↔ q' = q) ∧
      (parse ("while x do\n if y then\n" ++ "w = 2; local = )" ++ "\n" ++
        "z = 1\n end\nend") none).program.map (Stmt.map Token.content) =
        q.map (Stmt.map Token.content) ∧
      (parse ("while x do\n if y then\n" ++ "w = 2; local = )" ++ "\n" ++
        "z = 1\n end\nend") none).diagnostics =
        (parse ("w = 2; local = )" ++ "\n") none).diagnostics.map
          (Diagnostic.move
            (Position.down ((scan "while x do\n if y then\n" none).stop.line - 1))) := by
  have hchars : "w = 2; local = )".toList.all (fun c => c != '\n' && c != '\r') = true := by
    decide +kernel
  have hg : ∀ c ∈ "w = 2; local = )".toList, c ≠ '\n' ∧ c ≠ '\r' := by
    intro c hc
    simpa using List.all_eq_true.1 hchars c hc
  have hcut : LineCut "while x do\n if y then\n".toList "z = 1\n end\nend".toList :=
    ⟨lexemes "while x do\n if y then\n".toList, lexemes "z = 1\n end\nend".toList,
      by decide +kernel, by decide +kernel, .inr (by unfold LineEnded; decide +kernel)⟩
  exact parse_insert_line _ _ _ none (by decide +kernel) hcut hg (by decide +kernel)
    (by decide +kernel)

end LuaSyntax

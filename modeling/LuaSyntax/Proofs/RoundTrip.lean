import LuaSyntax.Proofs.Completeness
import LuaSyntax.Proofs.Spelling

/-! Writing a program and reading it back. Whatever source the tokens of a spelling come from,
the program read from it is the tree that they spell. -/

namespace LuaSyntax

open Grammar

namespace Spelling

/-! A spelling is a phrase of the grammar, whose tree has the tokens as marks. -/

theorem phrase_name {t : Token} (ht : t.kind = .identifier) :
    Phrase (.name (.ofToken t)) [t] .closed := by
  refine .literal ?_
  simp only [Expr.ofToken?, ht, Expr.ofName]

theorem phrase_numeral {t : Token} {e : Expr Token} (ht : t.kind = .numeral)
    (he : Expr.ofNumeral t = .ok e) : Phrase e [t] .closed := by
  refine .literal ?_
  simp only [Expr.ofToken?, ht, he]

theorem phrase_boolean {t : Token} {b : Bool} (ht : t.kind = if b then .kwTrue else .kwFalse)
    (hb : t.value = if b then "true" else "false") : Phrase (.boolean t b) [t] .closed := by
  refine .literal ?_
  cases b <;> simp_all [Expr.ofToken?, Expr.ofBoolean]

mutual

theorem SpelledExpr.phrase : ∀ {e : Expr Unit} {ts : List Token} {b : Bool}, SpelledExpr e ts b →
    ∃ e' s, Expr.map (fun _ => ()) e' = e ∧ Phrase e' ts s ∧ (b = true → s = .closed)
  | _, _, _, @SpelledExpr.name t x ht hx =>
    ⟨.name (.ofToken t), .closed, by subst hx; rfl, phrase_name ht, fun _ => rfl⟩
  | _, _, _, @SpelledExpr.integer t n ht hn => by
    have he : Expr.ofNumeral t = .ok (.integer t n) := by rw [Expr.ofNumeral, hn]
    exact ⟨.integer t n, .closed, rfl, phrase_numeral ht he, fun _ => rfl⟩
  | _, _, _, @SpelledExpr.float t x ht hx => by
    have he : Expr.ofNumeral t = .ok (.float t x) := by rw [Expr.ofNumeral, hx]
    exact ⟨.float t x, .closed, rfl, phrase_numeral ht he, fun _ => rfl⟩
  | _, _, _, @SpelledExpr.boolean t b ht hb =>
    ⟨.boolean t b, .closed, rfl, phrase_boolean ht hb, fun _ => rfl⟩
  | _, _, _, @SpelledExpr.string t x ht hx => by
    refine ⟨.string t x, .closed, rfl, .literal ?_, fun _ => rfl⟩
    simp only [Expr.ofToken?, ht, Expr.ofString, hx]
  | _, _, _, @SpelledExpr.nil t ht => by
    refine ⟨.nil t, .closed, rfl, .literal ?_, fun _ => rfl⟩
    simp only [Expr.ofToken?, ht]
  | _, _, _, @SpelledExpr.call t x lp es us ht hx hlp hes => by
    obtain ⟨es', rfl, hes'⟩ := hes.arguments
    subst hx
    exact ⟨.call lp (.ofToken t) es', .closed, rfl, .call (phrase_name ht) hlp hes', fun _ => rfl⟩
  | _, _, _, @SpelledExpr.group lp e ts b rp hlp he hrp => by
    obtain ⟨e', s, rfl, he', -⟩ := he.phrase
    exact ⟨e', .closed, rfl, .group hlp he' hrp, fun _ => rfl⟩
  | _, _, _, @SpelledExpr.unary op o e ts hop ho he => by
    obtain ⟨e', s, rfl, he', hs⟩ := he.phrase
    have habove : s.Above .unary := by rw [hs rfl]; trivial
    subst ho
    exact ⟨.unary op op.value e', .unary, rfl, .unary hop he' habove, nofun⟩
  | _, _, _, @SpelledExpr.binary op o l ls r rs hop ho hl hr => by
    obtain ⟨l', sl, rfl, hl', hsl⟩ := hl.phrase
    obtain ⟨r', sr, rfl, hr', hsr⟩ := hr.phrase
    have hleft : sl.LeftOf op.kind := by rw [hsl rfl]; trivial
    have hright : sr.RightOf op.kind := by rw [hsr rfl]; trivial
    subst ho
    exact ⟨.binary op op.value l' r', .binary op.kind, rfl, .binary hop hl' hleft hr' hright, nofun⟩

theorem SpelledArguments.arguments : ∀ {es : List (Expr Unit)} {ts : List Token},
    SpelledArguments es ts → ∃ es', Expr.mapAll (fun _ => ()) es' = es ∧ Arguments es' ts
  | _, _, .none h => ⟨[], rfl, .none h⟩
  | _, _, .some he hes => by
    obtain ⟨e', s, rfl, he', -⟩ := he.phrase
    obtain ⟨es', rfl, hes'⟩ := hes.moreArguments
    exact ⟨e' :: es', rfl, .some he' hes'⟩

theorem SpelledMoreArguments.moreArguments : ∀ {es : List (Expr Unit)} {ts : List Token},
    SpelledMoreArguments es ts → ∃ es', Expr.mapAll (fun _ => ()) es' = es ∧ MoreArguments es' ts
  | _, _, .close h => ⟨[], rfl, .close h⟩
  | _, _, .comma hc he hes => by
    obtain ⟨e', s, rfl, he', -⟩ := he.phrase
    obtain ⟨es', rfl, hes'⟩ := hes.moreArguments
    exact ⟨e' :: es', rfl, .comma hc he' hes'⟩

end

theorem SpelledExpr.expression {e : Expr Unit} {ts : List Token} {b : Bool}
    (h : SpelledExpr e ts b) : ∃ e', Expr.map (fun _ => ()) e' = e ∧ Expression e' ts := by
  obtain ⟨e', s, he, hphrase, -⟩ := h.phrase
  exact ⟨e', he, s, hphrase⟩

theorem SpelledMoreParameters.moreParameters {ps : List (Name Unit)} {ts : List Token}
    (h : SpelledMoreParameters ps ts) :
    ∃ rp ps', ps'.map (Name.map fun _ => ()) = ps ∧ MoreParameters rp ps' ts := by
  induction h with
  | close h => exact ⟨_, [], rfl, .close h⟩
  | @comma c t x ps us hc ht hx hps ih =>
    obtain ⟨rp, ps', rfl, hps'⟩ := ih
    subst hx
    exact ⟨rp, .ofToken t :: ps', rfl, .comma hc ht hps'⟩

theorem SpelledParameters.parameters {ps : List (Name Unit)} {ts : List Token}
    (h : SpelledParameters ps ts) :
    ∃ rp ps', ps'.map (Name.map fun _ => ()) = ps ∧ Parameters rp ps' ts := by
  cases h with
  | none h => exact ⟨_, [], rfl, .none h⟩
  | @some t x ps us ht hx hps =>
    obtain ⟨rp, ps', rfl, hps'⟩ := hps.moreParameters
    subst hx
    exact ⟨rp, .ofToken t :: ps', rfl, .some ht hps'⟩

theorem SpelledStep.step {e : Expr Unit} {ts : List Token} (h : SpelledStep e ts)
    (opener : Token) : ∃ e', Expr.map (fun _ => ()) e' = e ∧ Step opener e' ts := by
  cases h with
  | given hc he =>
    obtain ⟨e', rfl, he'⟩ := he.expression
    exact ⟨e', rfl, .given hc he'⟩
  | omitted => exact ⟨Parse.defaultStep opener.start, rfl, .omitted⟩

theorem Separated.endsStatement {us : List Token} {next : Option Kind} (h : Separated us)
    (hnext : EndsStatement next) : EndsStatement (ahead us next) := by
  cases us with
  | nil => exact hnext
  | cons t ts =>
    rintro k ⟨⟩
    exact .inl (h t rfl)

theorem endsStatement_of_blockEnd {k : Kind} (h : k.isBlockEnd = true) :
    EndsStatement (some k) := by
  rintro j ⟨⟩
  exact .inr h

mutual

theorem SpelledStmt.statement : ∀ {s : Stmt Unit} {ts : List Token}, SpelledStmt s ts →
    ∀ next, EndsStatement next → ∃ s', Stmt.erase s' = s ∧ Statement s' ts next
  | _, _, @SpelledStmt.call t x lp es us ht hx hlp hes, _, _ => by
    obtain ⟨es', rfl, hes'⟩ := hes.arguments
    subst hx
    exact ⟨.expression t (.call lp (.ofToken t) es'), rfl, .call ht hlp hes'⟩
  | _, _, @SpelledStmt.expression lp e ts b rp hlp he hrp, next, hnext => by
    obtain ⟨e', s, rfl, he', -⟩ := he.phrase
    have hbare : StartsBare lp (ahead (ts ++ [rp]) next) := .inl (by rw [hlp]; rfl)
    exact ⟨.expression lp e', rfl, .expression ⟨.closed, .group hlp he' hrp⟩ hbare hnext.stops⟩
  | _, _, @SpelledStmt.assign t x eq e ts b ht hx heq he, next, hnext => by
    obtain ⟨e', rfl, he'⟩ := he.expression
    subst hx
    exact ⟨.assign ⟨t, .ofToken t, e', false⟩, rfl, .assign ht heq he' hnext.stops⟩
  | _, _, @SpelledStmt.localAssign t n x eq e ts b ht hn hx heq he, next, hnext => by
    obtain ⟨e', rfl, he'⟩ := he.expression
    subst hx
    exact ⟨.assign ⟨t, .ofToken n, e', true⟩, rfl, .localAssign ht hn heq he' hnext.stops⟩
  | _, _, @SpelledStmt.ret t ht, next, hnext => ⟨.ret t none, rfl, .ret ht hnext⟩
  | _, _, @SpelledStmt.retValue t e ts b ht he, next, hnext => by
    obtain ⟨e', rfl, he'⟩ := he.expression
    exact ⟨.ret t (some e'), rfl, .retValue ht he' hnext⟩
  | _, _, @SpelledStmt.cond t s ts ht hs, next, _ => by
    obtain ⟨s', rfl, hs'⟩ := hs.branch t
    exact ⟨s', rfl, .cond ht hs'⟩
  | _, _, @SpelledStmt.whileLoop t c cs b d ss bs e ht hc hd hss he, next, _ => by
    obtain ⟨ss', rfl, hss'⟩ := hss.statements (some .kwEnd) (endsStatement_of_blockEnd rfl)
    obtain ⟨c', rfl, hc'⟩ := hc.expression
    exact ⟨.whileLoop t c' ⟨d, ss'⟩, rfl, .whileLoop ht hc' hd hss' he⟩
  | _, _, @SpelledStmt.forLoop t n x eq i is bi c l ls bl st sts d ss bs e ht hn hx heq hi hc hl
      hst hd hss he, next, _ => by
    obtain ⟨ss', rfl, hss'⟩ := hss.statements (some .kwEnd) (endsStatement_of_blockEnd rfl)
    obtain ⟨i', rfl, hi'⟩ := hi.expression
    obtain ⟨l', rfl, hl'⟩ := hl.expression
    obtain ⟨st', rfl, hst'⟩ := hst.step d
    subst hx
    exact ⟨.forLoop t ⟨n, .ofToken n, i', false⟩ l' st' ⟨d, ss'⟩, rfl,
      .forLoop ht (.mk hn heq hi' hc hl' hst' hd) hss' he⟩
  | _, _, @SpelledStmt.repeatLoop t ss bs u c cs b ht hss hu hc, next, hnext => by
    obtain ⟨ss', rfl, hss'⟩ := hss.statements (some .kwUntil) (endsStatement_of_blockEnd rfl)
    obtain ⟨c', rfl, hc'⟩ := hc.expression
    exact ⟨.repeatLoop t ⟨t, ss'⟩ c', rfl, .repeatLoop ht hss' hu hc' hnext.stops⟩
  | _, _, @SpelledStmt.function t n x lp ps us ss bs e ht hn hx hlp hps hss he, next, _ => by
    obtain ⟨ss', rfl, hss'⟩ := hss.statements (some .kwEnd) (endsStatement_of_blockEnd rfl)
    obtain ⟨rp, ps', rfl, hps'⟩ := hps.parameters
    subst hx
    exact ⟨.function t (.ofToken n) ps' ⟨rp, ss'⟩, rfl, .function ht (.mk hn hlp hps') hss' he⟩

theorem SpelledBody.statements : ∀ {ss : List (Stmt Unit)} {ts : List Token}, SpelledBody ss ts →
    ∀ next, EndsStatement next → ∃ ss', Stmt.mapAll (fun _ => ()) ss' = ss ∧ Statements ss' ts next
  | _, _, .nil, _, _ => ⟨[], rfl, .nil⟩
  | _, _, .separator ht hss, next, hnext => by
    obtain ⟨ss', rfl, hss'⟩ := hss.statements next hnext
    exact ⟨ss', rfl, .separator ht hss'⟩
  | _, _, @SpelledBody.cons s ts ss us hs hus hss, next, hnext => by
    obtain ⟨ss', rfl, hss'⟩ := hss.statements next hnext
    obtain ⟨s', rfl, hs'⟩ := hs.statement (ahead us next) (hus.endsStatement hnext)
    exact ⟨s' :: ss', rfl, .cons hs' hss'⟩

theorem SpelledBranch.branch : ∀ {s : Stmt Unit} {ts : List Token}, SpelledBranch s ts →
    ∀ t, ∃ s', Stmt.erase s' = s ∧ Branch t s' ts
  | _, _, @SpelledBranch.mk c cs b th ss bs a us hc hth hss ha, t => by
    obtain ⟨a', rfl, ha'⟩ := ha.alternative
    obtain ⟨u, vs, rfl, hu⟩ := ha'.exists_cons
    obtain ⟨ss', rfl, hss'⟩ := hss.statements (some u.kind) (endsStatement_of_blockEnd hu)
    obtain ⟨c', rfl, hc'⟩ := hc.expression
    refine ⟨.cond t c' ⟨th, ss'⟩ a', ?_, .mk hc' hth hss' ha'⟩
    cases a' <;> rfl

theorem SpelledAlternative.alternative : ∀ {a : Option (Block Unit (Stmt Unit))}
    {ts : List Token}, SpelledAlternative a ts →
    ∃ a' : Option (Block Token (Stmt Token)), a'.map (Block.map fun _ => ()) = a ∧
      Alternative a' ts
  | _, _, .none he => ⟨none, rfl, .none he⟩
  | _, _, @SpelledAlternative.block t ss bs e ht hss he => by
    obtain ⟨ss', rfl, hss'⟩ := hss.statements (some .kwEnd) (endsStatement_of_blockEnd rfl)
    exact ⟨some ⟨t, ss'⟩, rfl, .block ht hss' he⟩
  | _, _, @SpelledAlternative.branch t s ts ht hs => by
    obtain ⟨s', rfl, hs'⟩ := hs.branch t
    exact ⟨some ⟨t, [s']⟩, rfl, .branch ht hs'⟩

end

end Spelling

open Spelling

theorem parse_of_spelled {p : Program Unit} {text : String} {file : Option String}
    (h : SpelledBody p (tokenize text file).dropLast) :
    (parse text file).diagnostics = [] ∧ (parse text file).program.map Stmt.erase = p := by
  obtain ⟨p', rfl, hp'⟩ := h.statements none nofun
  rw [parse_of_sentence hp']
  exact ⟨rfl, (Stmt.mapAll_eq_map _ p').symm⟩

/-- Every tree that can be written is read back from whatever spells it. -/
theorem parse_of_writable (p : Program Unit) (hp : WritableBody p) (file : Option String) :
    (∃ text, SpelledBody p (tokenize text file).dropLast) ∧
      ∀ text, SpelledBody p (tokenize text file).dropLast →
        (parse text file).diagnostics = [] ∧ (parse text file).program.map Stmt.erase = p :=
  ⟨(spellable_body p hp).exists_text file, fun _ h => parse_of_spelled h⟩

theorem parse_of_writable_loop :
    (parse "while a do\nif b then f(2) elseif not b then x = (-a) * 2 end end"
        none).diagnostics = [] ∧
      (parse "while a do\nif b then f(2) elseif not b then x = (-a) * 2 end end"
        none).program.map Stmt.erase =
      [.whileLoop () (.name ⟨(), "a"⟩)
        ⟨(), [.cond () (.name ⟨(), "b"⟩)
          ⟨(), [.expression () (.call () ⟨(), "f"⟩ [.integer () 2])]⟩
          (some ⟨(), [.cond () (.unary () "not" (.name ⟨(), "b"⟩))
            ⟨(), [.assign ⟨(), ⟨(), "x"⟩,
              .binary () "*" (.unary () "-" (.name ⟨(), "a"⟩)) (.integer () 2), false⟩]⟩
            none]⟩)]⟩] := by
  have hname : ∀ c, Lexeme.isWordStart c = true → Kind.ofWord (String.ofList [c]) = .identifier →
      IsName (String.ofList [c]) := fun c hc hword =>
    ⟨c, [], String.toList_ofList, hc, List.forall_mem_nil _, hword⟩
  have ha : IsName "a" := hname 'a' (by decide) (by decide)
  have hb : IsName "b" := hname 'b' (by decide) (by decide)
  have hf : IsName "f" := hname 'f' (by decide) (by decide)
  have hx : IsName "x" := hname 'x' (by decide) (by decide)
  have htwo : Number.ofText? "2".toList = some (.integer 2) := by decide +kernel
  have hdigit : IsToken (.numeral, "2") := by
    unfold IsToken
    decide +kernel
  have hwritable : WritableExpr (.integer () 2) := ⟨"2", hdigit, htwo⟩
  refine (parse_of_writable _ ?_ none).2 _ ?_
  · have hnot : WritableExpr (.unary () "not" (.name ⟨(), "b"⟩)) := ⟨⟨.kwNot, rfl, rfl⟩, hb⟩
    have hminus : WritableExpr (.unary () "-" (.name ⟨(), "a"⟩)) := ⟨⟨.minus, rfl, rfl⟩, ha⟩
    have htimes : WritableExpr
        (.binary () "*" (.unary () "-" (.name ⟨(), "a"⟩)) (.integer () 2)) :=
      ⟨⟨.star, rfl, rfl⟩, hminus, hwritable⟩
    exact ⟨⟨ha, ⟨hb, ⟨⟨hf, hwritable, trivial⟩, trivial⟩, ⟨hnot, ⟨hx, htimes⟩, trivial⟩, trivial⟩,
      trivial⟩, trivial⟩
  have htokens :
      (tokenize "while a do\nif b then f(2) elseif not b then x = (-a) * 2 end end" none).dropLast =
        List.map (fun (k, v, l, c, m, d) => ⟨k, v, ⟨⟨l, c, "shell"⟩, ⟨m, d, "shell"⟩⟩⟩)
          [(.kwWhile, "while", 1, 1, 1, 6), (.identifier, "a", 1, 7, 1, 8),
            (.kwDo, "do", 1, 9, 1, 11), (.newline, "", 1, 11, 2, 1),
            (.kwIf, "if", 2, 1, 2, 3), (.identifier, "b", 2, 4, 2, 5),
            (.kwThen, "then", 2, 6, 2, 10), (.identifier, "f", 2, 11, 2, 12),
            (.leftParen, "(", 2, 12, 2, 13), (.numeral, "2", 2, 13, 2, 14),
            (.rightParen, ")", 2, 14, 2, 15), (.kwElseif, "elseif", 2, 16, 2, 22),
            (.kwNot, "not", 2, 23, 2, 26), (.identifier, "b", 2, 27, 2, 28),
            (.kwThen, "then", 2, 29, 2, 33), (.identifier, "x", 2, 34, 2, 35),
            (.assign, "=", 2, 36, 2, 37), (.leftParen, "(", 2, 38, 2, 39),
            (.minus, "-", 2, 39, 2, 40), (.identifier, "a", 2, 40, 2, 41),
            (.rightParen, ")", 2, 41, 2, 42), (.star, "*", 2, 43, 2, 44),
            (.numeral, "2", 2, 45, 2, 46), (.kwEnd, "end", 2, 47, 2, 50),
            (.kwEnd, "end", 2, 51, 2, 54)] := by decide +kernel
  rw [htokens]
  -- the tokens as the productions group them
  change SpelledBody _ ((_ :: ([_] ++ _ :: ((_ :: ((_ :: ([_] ++ _ :: (((_ :: _ :: ([_] ++ [_])) ++
    []) ++ (_ :: ([_, _] ++ _ :: (((_ :: _ :: ((_ :: ([_, _] ++ [_])) ++ _ :: [_])) ++ []) ++
    [_])))))) ++ [])) ++ [_]))) ++ [])
  have hlast : Separated [] := by
    rintro t ⟨⟩
  refine .cons (.whileLoop rfl (.name rfl rfl) rfl (.separator rfl ?_) rfl) hlast .nil
  refine .cons (.cond rfl (.mk (.name rfl rfl) rfl ?_ (.branch rfl ?_))) hlast .nil
  · exact .cons (.call rfl rfl rfl (.some (.integer rfl htwo) (.close rfl))) hlast .nil
  refine .mk (.unary rfl rfl (.name rfl rfl)) rfl ?_ (.none rfl)
  refine .cons (.assign rfl rfl rfl (.binary rfl rfl ?_ (.integer rfl htwo))) hlast .nil
  exact .group rfl (.unary rfl rfl (.name rfl rfl)) rfl

end LuaSyntax

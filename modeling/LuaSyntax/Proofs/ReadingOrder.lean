import LuaSyntax.Proofs.Places
import LuaSyntax.Proofs.Salvage

/-! The tokens of a program in the order in which they are read. Whatever was dropped between them,
they are tokens of the source in its order, and each belongs to one place of the tree. -/

namespace LuaSyntax

/-- The token of a node before those of its parts, written once where the first part has the same
token. -/
def shared (t : Token) (ts : List Token) : List Token := if ts.head? = some t then ts else t :: ts

mutual

/-- The tokens of the expression. An operator stands between its operands, and a call has its name
first, then the parenthesis and the arguments. -/
def Expr.tokens : Expr Token → List Token
  | .name n => [n.token]
  | .integer t _ | .float t _ | .boolean t _ | .string t _ | .nil t => [t]
  | .unary t _ e => t :: e.tokens
  | .binary t _ l r => l.tokens ++ t :: r.tokens
  | .call t n es => n.token :: t :: Expr.tokensAll es

def Expr.tokensAll : List (Expr Token) → List Token
  | [] => []
  | e :: es => e.tokens ++ Expr.tokensAll es

end

def Assign.tokens (a : Assign Token) : List Token :=
  shared a.token (a.name.token :: a.value.tokens)

/-- Whether the step of a `for` was made up: it is one and takes up no text, at the start of the
`do` that opens the block. -/
def Expr.isMadeUp (opener : Token) : Expr Token → Bool
  | .integer t n =>
    decide (opener.kind = .kwDo ∧ t = .synthetic .numeral "1" opener.start ∧ n = Int64.ofNat 1)
  | _ => false

mutual

def Stmt.tokens : Stmt Token → List Token
  | .expression t e => shared t e.tokens
  | .assign a => a.tokens
  | .ret t none => [t]
  | .ret t (some e) => t :: e.tokens
  | .block b => Block.tokens b
  | .cond t c b none => t :: (c.tokens ++ Block.tokens b)
  | .cond t c b (some a) => t :: (c.tokens ++ (Block.tokens b ++ Block.tokensShared a))
  | .whileLoop t c b => t :: (c.tokens ++ Block.tokens b)
  | .forLoop t i l s b =>
    t :: (i.tokens ++ (l.tokens ++ ((if s.isMadeUp b.token then [] else s.tokens) ++
      Block.tokens b)))
  | .repeatLoop t b c => shared t (Block.tokens b) ++ c.tokens
  | .function t n ps b => t :: n.token :: (ps.map Name.token ++ Block.tokens b)

def Block.tokens : Block Token (Stmt Token) → List Token
  | ⟨t, ss⟩ => t :: Stmt.tokensAll ss

def Block.tokensShared : Block Token (Stmt Token) → List Token
  | ⟨t, ss⟩ => shared t (Stmt.tokensAll ss)

def Stmt.tokensAll : List (Stmt Token) → List Token
  | [] => []
  | s :: ss => s.tokens ++ Stmt.tokensAll ss

end

def Program.tokens (p : Program Token) : List Token := Stmt.tokensAll p

theorem shared_sublist {t : Token} {ts us : List Token} (h : us.Sublist (t :: ts)) :
    (shared t us).Sublist (t :: ts) := by
  unfold shared
  split
  · exact h
  · next hne =>
    -- The parts do not begin with `t`, so they are all found behind it.
    rcases List.sublist_cons_iff.1 h with htail | ⟨vs, rfl, -⟩
    · exact htail.cons_cons t
    · exact absurd rfl hne

theorem shared_cons (t : Token) (ts : List Token) : shared t (t :: ts) = t :: ts := if_pos rfl

theorem isMadeUp_defaultStep {d : Token} (hd : d.kind = .kwDo) :
    (Parse.defaultStep d.start).isMadeUp d = true := decide_eq_true ⟨hd, rfl, rfl⟩

theorem sublist_closed {ts us : List Token} (h : us.Sublist ts) (e : Token) :
    us.Sublist (ts ++ [e]) := h.trans (List.sublist_append_left ts [e])

/-! Every phrase holds the tokens of its tree. -/

open Grammar

theorem tokens_of_denotes {t : Token} {e : Expr Token} (h : t.Denotes e) : e.tokens = [t] := by
  cases h <;> rfl

mutual

theorem tokens_sublist_of_phrase : ∀ {e : Expr Token} {ts : List Token} {s : Shape},
    Phrase e ts s → e.tokens.Sublist ts
  | _, _, _, .literal h => by
    have htokens := tokens_of_denotes (Token.denotes_of_ofToken? h)
    exact htokens ▸ List.Sublist.refl _
  | _, _, _, .group _ he _ => (sublist_closed (tokens_sublist_of_phrase he) _).cons _
  | _, _, _, .unary _ he _ => (tokens_sublist_of_phrase he).cons_cons _
  | _, _, _, .binary _ hl _ hr _ =>
    (tokens_sublist_of_phrase hl).append ((tokens_sublist_of_phrase hr).cons_cons _)
  | _, _, _, .call hn _ hes =>
    (tokens_sublist_of_phrase hn).append ((tokens_sublist_of_arguments hes).cons_cons _)

theorem tokens_sublist_of_arguments : ∀ {es : List (Expr Token)} {ts : List Token},
    Arguments es ts → (Expr.tokensAll es).Sublist ts
  | _, _, .none _ => List.nil_sublist _
  | _, _, .some he hes =>
    (tokens_sublist_of_phrase he).append (tokens_sublist_of_moreArguments hes)

theorem tokens_sublist_of_moreArguments : ∀ {es : List (Expr Token)} {ts : List Token},
    MoreArguments es ts → (Expr.tokensAll es).Sublist ts
  | _, _, .close _ => List.nil_sublist _
  | _, _, .comma _ he hes =>
    ((tokens_sublist_of_phrase he).append (tokens_sublist_of_moreArguments hes)).cons _

end

theorem tokens_sublist_of_expression {e : Expr Token} {ts : List Token} (h : Expression e ts) :
    e.tokens.Sublist ts := by
  obtain ⟨s, he⟩ := h
  exact tokens_sublist_of_phrase he

theorem tokens_sublist_of_moreParameters {rp : Token} {ps : List (Name Token)} {us : List Token}
    (h : MoreParameters rp ps us) : (ps.map Name.token ++ [rp]).Sublist us := by
  induction h with
  | close _ => exact List.Sublist.refl _
  | comma _ _ _ ih => exact (ih.cons_cons _).cons _

theorem tokens_sublist_of_parameters {rp : Token} {ps : List (Name Token)} {us : List Token}
    (h : Parameters rp ps us) : (ps.map Name.token ++ [rp]).Sublist us := by
  cases h with
  | none _ => exact List.Sublist.refl _
  | some _ hps => exact (tokens_sublist_of_moreParameters hps).cons_cons _

theorem tokens_sublist_of_functionHead {h : Parse.FunctionHeader} {hs : List Token}
    (hh : FunctionHead h hs) :
    (h.name :: (h.parameters.map Name.token ++ [h.opener])).Sublist hs := by
  cases hh with
  | mk _ _ hps => exact ((tokens_sublist_of_parameters hps).cons _).cons_cons _

theorem tokens_sublist_of_step {d : Token} {e : Expr Token} {ts : List Token} (h : Step d e ts)
    (hd : d.kind = .kwDo) : (if e.isMadeUp d then [] else e.tokens).Sublist ts := by
  cases h with
  | given _ he =>
    split
    · exact List.nil_sublist _
    · exact (tokens_sublist_of_expression he).cons _
  | omitted =>
    exact (if_pos (isMadeUp_defaultStep hd)).symm ▸ List.Sublist.refl _

theorem tokens_sublist_of_forHead {h : Parse.ForHeader} {hs : List Token} (hh : ForHead h hs) :
    (h.init.tokens ++ (h.limit.tokens ++
      ((if h.step.isMadeUp h.opener then [] else h.step.tokens) ++ [h.opener]))).Sublist hs := by
  cases hh with
  | @mk n eq i is c l ls st sts d _ _ hi _ hl hst hd =>
    -- The `do` ends the head and is the token of the block, so it is listed with the head.
    have hstep := (tokens_sublist_of_step hst hd).append (List.Sublist.refl [d])
    have hlimit := ((tokens_sublist_of_expression hl).append hstep).cons c
    have hinit := (((tokens_sublist_of_expression hi).append hlimit).cons eq).cons_cons n
    simpa only [Assign.tokens, Name.ofToken, shared_cons, List.cons_append] using hinit

mutual

theorem tokens_sublist_of_statement : ∀ {s : Stmt Token} {ts : List Token},
    Salvage.Statement s ts → s.tokens.Sublist ts
  | _, _, .expression he => shared_sublist (tokens_sublist_of_expression he)
  | _, _, .assign _ _ he => by
    have hvalue := tokens_sublist_of_expression he
    exact shared_sublist ((hvalue.cons _).cons_cons _)
  | _, _, .localAssign _ _ _ he => by
    have hvalue := tokens_sublist_of_expression he
    exact shared_sublist (((hvalue.cons _).cons_cons _).cons _)
  | _, _, .ret _ => List.Sublist.refl _
  | _, _, .retValue _ he => (tokens_sublist_of_expression he).cons_cons _
  | _, _, .cond _ hs => tokens_sublist_of_branch hs
  | _, _, .whileLoop (e := e) _ hc _ hss _ => by
    have hbody := sublist_closed (tokens_sublist_of_statements hss) e
    exact ((tokens_sublist_of_expression hc).append (hbody.cons_cons _)).cons_cons _
  | _, _, .forLoop (t := t) (e := e) _ hh hss _ => by
    have hhead := tokens_sublist_of_forHead hh
    have hbody := sublist_closed (tokens_sublist_of_statements hss) e
    simpa only [Stmt.tokens, Block.tokens, List.append_assoc, List.singleton_append] using
      (hhead.append hbody).cons_cons t
  | _, _, .repeatLoop (t := t) _ hss _ hc => by
    have hbody := shared_sublist ((tokens_sublist_of_statements hss).cons_cons t)
    exact hbody.append ((tokens_sublist_of_expression hc).cons _)
  | _, _, .function (t := t) (e := e) _ hh hss _ => by
    have hhead := tokens_sublist_of_functionHead hh
    have hbody := sublist_closed (tokens_sublist_of_statements hss) e
    simpa only [Stmt.tokens, Block.tokens, Name.ofToken, List.cons_append, List.append_assoc,
      List.nil_append] using (hhead.append hbody).cons_cons t

theorem tokens_sublist_of_statements : ∀ {ss : List (Stmt Token)} {ts : List Token},
    Salvage.Statements ss ts → (Stmt.tokensAll ss).Sublist ts
  | _, _, .nil => List.nil_sublist _
  | _, _, .skip hss => (tokens_sublist_of_statements hss).cons _
  | _, _, .cons hs hss => (tokens_sublist_of_statement hs).append (tokens_sublist_of_statements hss)

theorem tokens_sublist_of_branch : ∀ {t : Token} {s : Stmt Token} {ts : List Token},
    Salvage.Branch t s ts → s.tokens.Sublist (t :: ts)
  | _, _, _, .mk hc _ hss ha => by
    have hcondition := tokens_sublist_of_expression hc
    have hbody := tokens_sublist_of_statements hss
    have halternative := tokens_sublist_of_alternative ha
    cases ha with
    | @none e =>
      have hblock := sublist_closed hbody e
      exact (hcondition.append (hblock.cons_cons _)).cons_cons _
    | block | branch =>
      have hblocks := hbody.append (halternative _ rfl)
      exact (hcondition.append (hblocks.cons_cons _)).cons_cons _

theorem tokens_sublist_of_alternative : ∀ {a : Option (Block Token (Stmt Token))}
    {ts : List Token}, Salvage.Alternative a ts → ∀ b ∈ a, (Block.tokensShared b).Sublist ts
  | _, _, .none _ => nofun
  | _, _, .block (t := t) (e := e) _ hss _ => by
    rintro _ ⟨⟩
    have hbody := sublist_closed (tokens_sublist_of_statements hss) e
    exact shared_sublist (hbody.cons t)
  | _, _, .branch _ hs => by
    rintro _ ⟨⟩
    have hbranch := tokens_sublist_of_branch hs
    refine shared_sublist ?_
    rwa [Stmt.tokensAll, Stmt.tokensAll, List.append_nil]

end

/-- The tokens of a program are tokens of the source, in the order of the source. In a source of
fewer than `2 ^ 32 - 1` characters each stands before the next, so none is in two places. -/
theorem parse_reading_order (source : String) (file : Option String)
    (h : source.length < UInt32.size - 1) :
    (Program.tokens (parse source file).program).Sublist (tokenize source file) ∧
      (Program.tokens (parse source file).program).Pairwise Token.Precedes := by
  have hsublist : (Program.tokens (parse source file).program).Sublist (tokenize source file) :=
    (tokens_sublist_of_statements (salvage_parse source file)).trans (List.sublist_append_left _ _)
  exact ⟨hsublist, (pairwise_tokenize h).sublist hsublist⟩

theorem parse_reading_order_dropped :
    let source := "for i = 1, 2 do\n x = = y\n f((a)) end if b then elseif c then return end"
    (Program.tokens (parse source none).program).map Token.value =
        ["for", "i", "1", "2", "do", "f", "(", "a", "if", "b", "then", "elseif", "c", "then",
          "return"] ∧
      (Program.tokens (parse source none).program).Sublist (tokenize source none) ∧
      (Program.tokens (parse source none).program).Pairwise Token.Precedes :=
  ⟨by decide +kernel, parse_reading_order _ none (by decide +kernel)⟩

end LuaSyntax

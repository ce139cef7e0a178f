import LuaSyntax.Proofs.Completeness
import LuaSyntax.Proofs.Soundness

/-! Sources that are read without a diagnostic. Their tokens are a sentence of the grammar and
the program is its tree, so no token is dropped and none has to be of a kind that no production
holds. -/

namespace LuaSyntax

namespace Kind

def inExpr (k : Kind) : Bool := k.startsExpr || k.isBinary || k == rightParen || k == comma

def inHead (k : Kind) : Bool := k.inExpr || k == assign || k == kwDo

/-- Kinds that no production holds. -/
def isUnread : Kind → Bool
  | illegal | kwBreak | kwGoto | kwIn | leftBrace | rightBrace | leftBracket | rightBracket
  | colon | label | dot | vararg | comment | endOfInput => true
  | _ => false

theorem inHead_of_inExpr {k : Kind} (h : k.inExpr = true) : k.inHead = true := by
  simp [inHead, h]

theorem isUnread_of_inHead {k : Kind} (h : k.inHead = true) : k.isUnread = false := by
  revert h
  cases k <;> decide

theorem isUnread_of_isSeparator {k : Kind} (h : k.isSeparator = true) : k.isUnread = false := by
  revert h
  cases k <;> decide

end Kind

namespace Grammar

theorem inExpr_of_kind {t : Token} {k : Kind} (h : t.kind = k) (hk : k.inExpr = true) :
    t.kind.inExpr = true := by rwa [h]

theorem inHead_of_kind {t : Token} {k : Kind} (h : t.kind = k) (hk : k.inHead = true) :
    t.kind.inHead = true := by rwa [h]

theorem isUnread_of_kind {t : Token} {k : Kind} (h : t.kind = k) (hk : k.isUnread = false) :
    t.kind.isUnread = false := by rwa [h]

mutual

theorem Phrase.inExpr : ∀ {e : Expr Token} {ts : List Token} {s : Shape}, Phrase e ts s →
    ∀ t ∈ ts, t.kind.inExpr = true
  | _, _, _, .literal h => by
    simp [Kind.inExpr, startsExpr_of_ofToken? h]
  | _, _, _, .group hl he hr => by
    simp only [List.forall_mem_cons, List.forall_mem_append]
    exact ⟨inExpr_of_kind hl (by decide), he.inExpr, inExpr_of_kind hr (by decide),
      List.forall_mem_nil _⟩
  | _, _, _, .unary hop he _ => by
    simp only [List.forall_mem_cons]
    exact ⟨by simp [Kind.inExpr, Kind.startsExpr_of_isUnary hop], he.inExpr⟩
  | _, _, _, .binary hop hl _ hr _ => by
    simp only [List.forall_mem_cons, List.forall_mem_append]
    exact ⟨hl.inExpr, by simp [Kind.inExpr, hop], hr.inExpr⟩
  | _, _, _, .call hn hop hes => by
    simp only [List.forall_mem_cons, List.forall_mem_append]
    exact ⟨hn.inExpr, inExpr_of_kind hop (by decide), hes.inExpr⟩

theorem Arguments.inExpr : ∀ {es : List (Expr Token)} {ts : List Token}, Arguments es ts →
    ∀ t ∈ ts, t.kind.inExpr = true
  | _, _, .none h => by
    simp only [List.forall_mem_cons]
    exact ⟨inExpr_of_kind h (by decide), List.forall_mem_nil _⟩
  | _, _, .some he hes => by
    simp only [List.forall_mem_append]
    exact ⟨he.inExpr, hes.inExpr⟩

theorem MoreArguments.inExpr : ∀ {es : List (Expr Token)} {ts : List Token},
    MoreArguments es ts → ∀ t ∈ ts, t.kind.inExpr = true
  | _, _, .close h => by
    simp only [List.forall_mem_cons]
    exact ⟨inExpr_of_kind h (by decide), List.forall_mem_nil _⟩
  | _, _, .comma hc he hes => by
    simp only [List.forall_mem_cons, List.forall_mem_append]
    exact ⟨inExpr_of_kind hc (by decide), he.inExpr, hes.inExpr⟩

end

theorem Expression.inHead {e : Expr Token} {ts : List Token} (h : Expression e ts) :
    ∀ t ∈ ts, t.kind.inHead = true := by
  obtain ⟨s, h⟩ := h
  exact fun t ht => Kind.inHead_of_inExpr (h.inExpr t ht)

theorem MoreParameters.inHead {rp : Token} {ps : List (Name Token)} {ts : List Token}
    (h : MoreParameters rp ps ts) : ∀ t ∈ ts, t.kind.inHead = true := by
  induction h with
  | close hrp =>
    simp only [List.forall_mem_cons]
    exact ⟨inHead_of_kind hrp (by decide), List.forall_mem_nil _⟩
  | comma hc hp hps ih =>
    simp only [List.forall_mem_cons]
    exact ⟨inHead_of_kind hc (by decide), inHead_of_kind hp (by decide), ih⟩

theorem Parameters.inHead {rp : Token} {ps : List (Name Token)} {ts : List Token}
    (h : Parameters rp ps ts) : ∀ t ∈ ts, t.kind.inHead = true := by
  cases h with
  | none hrp =>
    simp only [List.forall_mem_cons]
    exact ⟨inHead_of_kind hrp (by decide), List.forall_mem_nil _⟩
  | some hp hps =>
    simp only [List.forall_mem_cons]
    exact ⟨inHead_of_kind hp (by decide), hps.inHead⟩

theorem Step.inHead {d : Token} {e : Expr Token} {ts : List Token} (h : Step d e ts) :
    ∀ t ∈ ts, t.kind.inHead = true := by
  cases h with
  | given hc he =>
    simp only [List.forall_mem_cons]
    exact ⟨inHead_of_kind hc (by decide), he.inHead⟩
  | omitted => exact List.forall_mem_nil _

theorem ForHead.inHead {h : Parse.ForHeader} {ts : List Token} (hh : ForHead h ts) :
    ∀ t ∈ ts, t.kind.inHead = true := by
  cases hh with
  | mk hn heq hi hc hl hst hd =>
    simp only [List.forall_mem_cons, List.forall_mem_append]
    exact ⟨inHead_of_kind hn (by decide), inHead_of_kind heq (by decide), hi.inHead,
      inHead_of_kind hc (by decide), hl.inHead, hst.inHead, inHead_of_kind hd (by decide),
      List.forall_mem_nil _⟩

theorem FunctionHead.inHead {h : Parse.FunctionHeader} {ts : List Token}
    (hh : FunctionHead h ts) : ∀ t ∈ ts, t.kind.inHead = true := by
  cases hh with
  | mk hn hlp hps =>
    simp only [List.forall_mem_cons]
    exact ⟨inHead_of_kind hn (by decide), inHead_of_kind hlp (by decide), hps.inHead⟩

theorem isUnread_of_inHead {ts : List Token} (h : ∀ t ∈ ts, t.kind.inHead = true) :
    ∀ t ∈ ts, t.kind.isUnread = false := fun t ht => Kind.isUnread_of_inHead (h t ht)

mutual

theorem Statement.isUnread : ∀ {s : Stmt Token} {ts : List Token} {next : Option Kind},
    Statement s ts next → ∀ t ∈ ts, t.kind.isUnread = false
  | _, _, _, .expression he _ _ => isUnread_of_inHead he.inHead
  | _, _, _, .call ht hop hes => by
    simp only [List.forall_mem_cons]
    exact ⟨isUnread_of_kind ht (by decide), isUnread_of_kind hop (by decide),
      isUnread_of_inHead fun t ht => Kind.inHead_of_inExpr (hes.inExpr t ht)⟩
  | _, _, _, .assign ht heq he _ => by
    simp only [List.forall_mem_cons]
    exact ⟨isUnread_of_kind ht (by decide), isUnread_of_kind heq (by decide),
      isUnread_of_inHead he.inHead⟩
  | _, _, _, .localAssign ht hn heq he _ => by
    simp only [List.forall_mem_cons]
    exact ⟨isUnread_of_kind ht (by decide), isUnread_of_kind hn (by decide),
      isUnread_of_kind heq (by decide), isUnread_of_inHead he.inHead⟩
  | _, _, _, .ret ht _ => by
    simp only [List.forall_mem_cons]
    exact ⟨isUnread_of_kind ht (by decide), List.forall_mem_nil _⟩
  | _, _, _, .retValue ht he _ => by
    simp only [List.forall_mem_cons]
    exact ⟨isUnread_of_kind ht (by decide), isUnread_of_inHead he.inHead⟩
  | _, _, _, .cond ht hs => by
    simp only [List.forall_mem_cons]
    exact ⟨isUnread_of_kind ht (by decide), hs.isUnread⟩
  | _, _, _, .whileLoop ht hc hd hss he => by
    simp only [List.forall_mem_cons, List.forall_mem_append]
    exact ⟨isUnread_of_kind ht (by decide), isUnread_of_inHead hc.inHead,
      isUnread_of_kind hd (by decide), hss.isUnread, isUnread_of_kind he (by decide),
      List.forall_mem_nil _⟩
  | _, _, _, .forLoop ht hh hss he => by
    simp only [List.forall_mem_cons, List.forall_mem_append]
    exact ⟨isUnread_of_kind ht (by decide), isUnread_of_inHead hh.inHead, hss.isUnread,
      isUnread_of_kind he (by decide),
      List.forall_mem_nil _⟩
  | _, _, _, .repeatLoop ht hss hu hc _ => by
    simp only [List.forall_mem_cons, List.forall_mem_append]
    exact ⟨isUnread_of_kind ht (by decide), hss.isUnread, isUnread_of_kind hu (by decide),
      isUnread_of_inHead hc.inHead⟩
  | _, _, _, .function ht hh hss he => by
    simp only [List.forall_mem_cons, List.forall_mem_append]
    exact ⟨isUnread_of_kind ht (by decide), isUnread_of_inHead hh.inHead, hss.isUnread,
      isUnread_of_kind he (by decide),
      List.forall_mem_nil _⟩

theorem Statements.isUnread : ∀ {ss : List (Stmt Token)} {ts : List Token} {next : Option Kind},
    Statements ss ts next → ∀ t ∈ ts, t.kind.isUnread = false
  | _, _, _, .nil => List.forall_mem_nil _
  | _, _, _, .separator ht hss => by
    simp only [List.forall_mem_cons]
    exact ⟨Kind.isUnread_of_isSeparator ht, hss.isUnread⟩
  | _, _, _, .cons hs hss => by
    simp only [List.forall_mem_append]
    exact ⟨hs.isUnread, hss.isUnread⟩

theorem Branch.isUnread : ∀ {t : Token} {s : Stmt Token} {ts : List Token}, Branch t s ts →
    ∀ u ∈ ts, u.kind.isUnread = false
  | _, _, _, .mk hc hth hss ha => by
    simp only [List.forall_mem_cons, List.forall_mem_append]
    exact ⟨isUnread_of_inHead hc.inHead, isUnread_of_kind hth (by decide), hss.isUnread,
      ha.isUnread⟩

theorem Alternative.isUnread : ∀ {a : Option (Block Token (Stmt Token))} {ts : List Token},
    Alternative a ts → ∀ t ∈ ts, t.kind.isUnread = false
  | _, _, .none he => by
    simp only [List.forall_mem_cons]
    exact ⟨isUnread_of_kind he (by decide),
      List.forall_mem_nil _⟩
  | _, _, .block ht hss he => by
    simp only [List.forall_mem_cons, List.forall_mem_append]
    exact ⟨isUnread_of_kind ht (by decide), hss.isUnread, isUnread_of_kind he (by decide),
      List.forall_mem_nil _⟩
  | _, _, .branch ht hs => by
    simp only [List.forall_mem_cons]
    exact ⟨isUnread_of_kind ht (by decide), hs.isUnread⟩

end

end Grammar

open Grammar

/-- A source that is read without a diagnostic is a sentence of the grammar and the program is
its tree, the only one it has. No token of it is of a kind that no production holds. -/
theorem parse_clean_sentence (text : String) (file : Option String)
    (h : (parse text file).diagnostics = []) :
    Sentence (parse text file).program (tokenize text file).dropLast ∧
      (∀ p, Sentence p (tokenize text file).dropLast → p = (parse text file).program) ∧
      ∀ t ∈ (tokenize text file).dropLast, t.kind.isUnread = false := by
  have hsentence : Sentence (parse text file).program (tokenize text file).dropLast := by
    rw [dropLast_tokenize]
    exact Parsed.sentence_of_clean _ _ h
  refine ⟨hsentence, ?_, hsentence.isUnread⟩
  intro p hp
  rw [parse_of_sentence hp]

theorem parse_clean_sentence_nested :
    Sentence
      (parse
        "repeat\n a = -b ^ 2 .. (c or d)\n if f(a) then return elseif not a then f() end\nuntil a"
        none).program
      (tokenize
        "repeat\n a = -b ^ 2 .. (c or d)\n if f(a) then return elseif not a then f() end\nuntil a"
        none).dropLast :=
  (parse_clean_sentence _ none (by decide +kernel)).1

end LuaSyntax

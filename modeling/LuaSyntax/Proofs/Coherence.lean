import LuaSyntax.Proofs.Reports
import LuaSyntax.Proofs.Salvage

/-! Nodes and their tokens. A node agrees with the token that introduced it: kinds are those that
the node calls for, and names, operators and values are what the texts of the tokens give. This
holds of every node that is ever read, also where statements around it were dropped. -/

namespace LuaSyntax

def Name.Coherent (n : Name Token) : Prop := n.token.kind = .identifier ∧ n.value = n.token.value

/-- The token that an expression begins with, apart from parentheses. -/
def Expr.firstToken : Expr Token → Token
  | .binary _ _ l _ => l.firstToken
  | .call _ n _ => n.token
  | e => e.token

mutual

def Expr.Coherent : Expr Token → Prop
  | .name n => n.Coherent
  | .integer t n =>
    t.kind = .numeral ∧ Number.ofText? t.value.toList = some (.integer n) ∧
      0 ≤ n.toInt ∧ n.toInt < 0x8000000000000000
  | .float t x => t.kind = .numeral ∧ Number.ofText? t.value.toList = some (.float x)
  | .boolean t b => (t.kind = .kwTrue ∨ t.kind = .kwFalse) ∧ (b = true ↔ t.kind = .kwTrue)
  | .string t s => t.kind = .string ∧ s = Escape.decode t.value
  | .nil t => t.kind = .kwNil
  | .unary t op e =>
    t.kind.isUnary = true ∧ op = t.value ∧ t.value = t.kind.text ∧ e.Coherent
  | .binary t op l r =>
    t.kind.isBinary = true ∧ op = t.value ∧ t.value = t.kind.text ∧ l.Coherent ∧ r.Coherent
  | .call t n es => t.kind = .leftParen ∧ n.Coherent ∧ Expr.AllCoherent es

def Expr.AllCoherent : List (Expr Token) → Prop
  | [] => True
  | e :: es => e.Coherent ∧ Expr.AllCoherent es

end

def Assign.Coherent (a : Assign Token) : Prop :=
  a.name.Coherent ∧ a.value.Coherent ∧ (a.isLocal = true ↔ a.token.kind = .kwLocal) ∧
    (a.isLocal = false → a.token = a.name.token)

mutual

/-- The nodes of the statement agree with their tokens. A conditional here starts with `keyword`,
which is `elseif` for the one statement of a block that the same `elseif` opens, and else `if`. -/
def Stmt.Coherent (keyword : Kind) : Stmt Token → Prop
  | .expression t e => (t.kind = .leftParen ∨ t = e.firstToken) ∧ e.Coherent
  | .assign a => a.Coherent
  | .ret t e => t.kind = .kwReturn ∧ ∀ v ∈ e, v.Coherent
  | .block _ => False
  | .cond t c b none => t.kind = keyword ∧ c.Coherent ∧ Block.Coherent .kwThen b
  | .cond t c b (some a) =>
    t.kind = keyword ∧ c.Coherent ∧ Block.Coherent .kwThen b ∧ Block.CoherentAlternative a
  | .whileLoop t c b => t.kind = .kwWhile ∧ c.Coherent ∧ Block.Coherent .kwDo b
  | .forLoop t i l s b =>
    t.kind = .kwFor ∧ i.Coherent ∧ i.isLocal = false ∧ l.Coherent ∧ s.Coherent ∧
      Block.Coherent .kwDo b
  | .repeatLoop t b c => b.token = t ∧ Block.Coherent .kwRepeat b ∧ c.Coherent
  | .function t n ps b =>
    t.kind = .kwFunction ∧ n.Coherent ∧ (∀ p ∈ ps, p.Coherent) ∧ Block.Coherent .rightParen b

def Block.Coherent (opener : Kind) : Block Token (Stmt Token) → Prop
  | ⟨t, ss⟩ => t.kind = opener ∧ Stmt.AllCoherent .kwIf ss

/-- The second block of a conditional: that of an `else`, or a conditional that starts with the
`elseif` that opens the block. -/
def Block.CoherentAlternative : Block Token (Stmt Token) → Prop
  | ⟨t, ss⟩ =>
    t.kind = .kwElse ∧ Stmt.AllCoherent .kwIf ss ∨
      t.kind = .kwElseif ∧ (∃ c b a, ss = [.cond t c b a]) ∧ Stmt.AllCoherent .kwElseif ss

def Stmt.AllCoherent (keyword : Kind) : List (Stmt Token) → Prop
  | [] => True
  | s :: ss => s.Coherent keyword ∧ Stmt.AllCoherent keyword ss

end

theorem Stmt.allCoherent_iff {keyword : Kind} {ss : List (Stmt Token)} :
    Stmt.AllCoherent keyword ss ↔ ∀ s ∈ ss, s.Coherent keyword := by
  induction ss with
  | nil => simp [Stmt.AllCoherent]
  | cons s ss ih => rw [Stmt.AllCoherent, ih, List.forall_mem_cons]

theorem AllSpelled.left {ts us : List Token} (h : AllSpelled (ts ++ us)) : AllSpelled ts :=
  fun t ht => h t (List.mem_append_left us ht)

theorem AllSpelled.right {ts us : List Token} (h : AllSpelled (ts ++ us)) : AllSpelled us :=
  h.of_suffix (List.suffix_append ts us)

/-! Literals. -/

theorem Number.toInt_of_fit? {m : Nat} {n : Int64} (h : fit? m = some n) : n.toInt = m := by
  unfold fit? at h
  split at h
  · next hm =>
    cases h
    exact Int64.toInt_ofNat_of_lt hm
  · cases h

theorem Number.exists_fit? {cs : List Char} {n : Int64} (h : ofText? cs = some (.integer n)) :
    ∃ m, fit? m = some n := by
  unfold ofText? at h
  split at h
  · obtain ⟨k, hk, hn⟩ := Option.map_eq_some_iff.1 h
    cases hn
    unfold hexInteger? at hk
    split at hk
    · exact ⟨_, hk⟩
    · cases hk
  split at h
  · obtain ⟨x, -, hx⟩ := Option.map_eq_some_iff.1 h
    cases hx
  · rcases Option.or_eq_some_iff.1 h with hdecimal | ⟨-, hfloat⟩
    · obtain ⟨k, hk, hn⟩ := Option.map_eq_some_iff.1 hdecimal
      cases hn
      unfold decimalInteger? at hk
      split at hk
      · exact ⟨_, hk⟩
      · cases hk
    · obtain ⟨x, -, hx⟩ := Option.map_eq_some_iff.1 hfloat
      cases hx

theorem Number.toInt_nonneg {cs : List Char} {n : Int64} (h : ofText? cs = some (.integer n)) :
    0 ≤ n.toInt := by
  obtain ⟨m, hm⟩ := exists_fit? h
  rw [toInt_of_fit? hm]
  exact Int.natCast_nonneg m

theorem coherent_of_denotes {t : Token} {e : Expr Token} (h : t.Denotes e) (ht : t.Spelled) :
    e.Coherent := by
  cases h with
  | name hk => exact ⟨hk, rfl⟩
  | integer hk hn => exact ⟨hk, hn, Number.toInt_nonneg hn, Int64.toInt_lt _⟩
  | float hk hx => exact ⟨hk, hx⟩
  | @boolean b hk hb =>
    -- The truth value is read off the text, which for a reserved word is that of its kind.
    refine ⟨hk, ?_⟩
    rcases hk with hk | hk
    · have hvalue : t.value = "true" := by rw [ht (by rw [hk]; decide), hk]; rfl
      cases b <;> simp_all
    · have hvalue : t.value = "false" := by rw [ht (by rw [hk]; decide), hk]; rfl
      cases b <;> simp_all
  | string hk => exact ⟨hk, rfl⟩
  | nil hk => exact hk

theorem coherent_ofToken {t : Token} (h : t.kind = .identifier) : (Name.ofToken t).Coherent :=
  ⟨h, rfl⟩

theorem coherent_defaultStep (p : Position) : (Parse.defaultStep p).Coherent := by
  have hvalue : Number.ofText? "1".toList = some (.integer (Int64.ofNat 1)) := rfl
  exact ⟨rfl, hvalue, Number.toInt_nonneg hvalue, Int64.toInt_lt _⟩

/-! Expressions. -/

open Grammar

mutual

theorem coherent_of_phrase : ∀ {e : Expr Token} {ts : List Token} {s : Shape}, Phrase e ts s →
    AllSpelled ts → e.Coherent
  | _, _, _, .literal h, hts =>
    coherent_of_denotes (Token.denotes_of_ofToken? h) (hts _ (List.mem_singleton_self _))
  | _, _, _, .group _ he _, hts => coherent_of_phrase he hts.tail.left
  | _, _, _, .unary hop he _, hts =>
    ⟨hop, rfl, hts _ List.mem_cons_self (Spelling.mem_of_isUnary hop),
      coherent_of_phrase he hts.tail⟩
  | _, _, _, .binary hop hl _ hr _, hts =>
    ⟨hop, rfl, hts.right _ List.mem_cons_self (Spelling.mem_of_isBinary hop),
      coherent_of_phrase hl hts.left, coherent_of_phrase hr hts.right.tail⟩
  | _, _, _, .call hn hop hes, hts =>
    ⟨hop, coherent_of_phrase hn hts.left, coherent_of_arguments hes hts.right.tail⟩

theorem coherent_of_arguments : ∀ {es : List (Expr Token)} {ts : List Token}, Arguments es ts →
    AllSpelled ts → Expr.AllCoherent es
  | _, _, .none _, _ => trivial
  | _, _, .some he hes, hts =>
    ⟨coherent_of_phrase he hts.left, coherent_of_moreArguments hes hts.right⟩

theorem coherent_of_moreArguments : ∀ {es : List (Expr Token)} {ts : List Token},
    MoreArguments es ts → AllSpelled ts → Expr.AllCoherent es
  | _, _, .close _, _ => trivial
  | _, _, .comma _ he hes, hts =>
    ⟨coherent_of_phrase he hts.tail.left, coherent_of_moreArguments hes hts.tail.right⟩

end

theorem coherent_of_expression {e : Expr Token} {ts : List Token} (h : Expression e ts)
    (hts : AllSpelled ts) : e.Coherent := by
  obtain ⟨s, he⟩ := h
  exact coherent_of_phrase he hts

theorem firstToken_of_denotes {t : Token} {e : Expr Token} (h : t.Denotes e) :
    t = e.firstToken := by
  cases h <;> rfl

theorem firstToken_of_phrase : ∀ {s : Shape} {ts : List Token} {e : Expr Token}, Phrase e ts s →
    ∃ t us, ts = t :: us ∧ (t.kind = .leftParen ∨ t = e.firstToken)
  | _, _, _, .literal h =>
    ⟨_, [], rfl, .inr (firstToken_of_denotes (Token.denotes_of_ofToken? h))⟩
  | _, _, _, .group hl _ _ => ⟨_, _, rfl, .inl hl⟩
  | _, _, _, .unary _ _ _ => ⟨_, _, rfl, .inr rfl⟩
  | _, _, _, .binary _ hl _ _ _ => by
    obtain ⟨t, us, rfl, ht⟩ := firstToken_of_phrase hl
    exact ⟨t, _, rfl, ht⟩
  | _, _, _, .call hn _ _ => by
    obtain ⟨t, us, rfl, ht⟩ := firstToken_of_phrase hn
    exact ⟨t, _, rfl, ht⟩

/-! Statements. -/

theorem coherent_of_moreParameters {rp : Token} {ps : List (Name Token)} {us : List Token}
    (h : MoreParameters rp ps us) : rp.kind = .rightParen ∧ ∀ p ∈ ps, p.Coherent := by
  induction h with
  | close hrp => exact ⟨hrp, List.forall_mem_nil _⟩
  | comma _ hp _ ih => exact ⟨ih.1, List.forall_mem_cons.2 ⟨coherent_ofToken hp, ih.2⟩⟩

theorem coherent_of_parameters {rp : Token} {ps : List (Name Token)} {us : List Token}
    (h : Parameters rp ps us) : rp.kind = .rightParen ∧ ∀ p ∈ ps, p.Coherent := by
  cases h with
  | none hrp => exact ⟨hrp, List.forall_mem_nil _⟩
  | some hp hps =>
    obtain ⟨hrp, hall⟩ := coherent_of_moreParameters hps
    exact ⟨hrp, List.forall_mem_cons.2 ⟨coherent_ofToken hp, hall⟩⟩

theorem coherent_of_step {d : Token} {e : Expr Token} {ts : List Token} (h : Step d e ts)
    (hts : AllSpelled ts) : e.Coherent := by
  cases h with
  | given _ he => exact coherent_of_expression he hts.tail
  | omitted => exact coherent_defaultStep d.start

theorem coherent_assign {n : Token} {e : Expr Token} (hn : n.kind = .identifier)
    (he : e.Coherent) : Assign.Coherent ⟨n, .ofToken n, e, false⟩ := by
  refine ⟨coherent_ofToken hn, he, ?_, fun _ => rfl⟩
  simp [hn]

mutual

theorem coherent_of_statement : ∀ {s : Stmt Token} {ts : List Token}, Salvage.Statement s ts →
    AllSpelled ts → s.Coherent .kwIf
  | _, _, .expression he, hts => by
    obtain ⟨s, he⟩ := he
    obtain ⟨t, us, hcons, ht⟩ := firstToken_of_phrase he
    cases hcons
    exact ⟨ht, coherent_of_phrase he hts⟩
  | _, _, .assign ht _ he, hts => coherent_assign ht (coherent_of_expression he hts.tail.tail)
  | _, _, .localAssign ht hn _ he, hts =>
    ⟨coherent_ofToken hn, coherent_of_expression he hts.tail.tail.tail, iff_of_true rfl ht, nofun⟩
  | _, _, .ret ht, _ => ⟨ht, nofun⟩
  | _, _, .retValue ht he, hts => by
    refine ⟨ht, ?_⟩
    rintro _ ⟨⟩
    exact coherent_of_expression he hts.tail
  | _, _, .cond ht hs, hts => coherent_of_branch hs ht hts.tail
  | _, _, .whileLoop ht hc hd hss _, hts =>
    ⟨ht, coherent_of_expression hc hts.tail.left, hd,
      coherent_of_statements hss hts.tail.right.tail.left⟩
  | _, _, .forLoop ht hh hss _, hts => by
    have hbody := coherent_of_statements hss hts.tail.right.left
    have hhead := hts.tail.left
    cases hh with
    | mk hn _ hi _ hl hst hd =>
      have hinit := coherent_of_expression hi hhead.tail.tail.left
      have hlimit := coherent_of_expression hl hhead.tail.tail.right.tail.left
      have hstep := coherent_of_step hst hhead.tail.tail.right.tail.right.left
      exact ⟨ht, coherent_assign hn hinit, rfl, hlimit, hstep, hd, hbody⟩
  | _, _, .repeatLoop ht hss _ hc, hts =>
    ⟨rfl, ⟨ht, coherent_of_statements hss hts.tail.left⟩,
      coherent_of_expression hc hts.tail.right.tail⟩
  | _, _, .function ht hh hss _, hts => by
    have hbody := coherent_of_statements hss hts.tail.right.left
    cases hh with
    | mk hn _ hps =>
      obtain ⟨hrp, hall⟩ := coherent_of_parameters hps
      exact ⟨ht, coherent_ofToken hn, hall, hrp, hbody⟩

theorem coherent_of_statements : ∀ {ss : List (Stmt Token)} {ts : List Token},
    Salvage.Statements ss ts → AllSpelled ts → Stmt.AllCoherent .kwIf ss
  | _, _, .nil, _ => trivial
  | _, _, .skip hss, hts => coherent_of_statements hss hts.tail
  | _, _, .cons hs hss, hts =>
    ⟨coherent_of_statement hs hts.left, coherent_of_statements hss hts.right⟩

theorem coherent_of_branch : ∀ {t : Token} {s : Stmt Token} {ts : List Token} {keyword : Kind},
    Salvage.Branch t s ts → t.kind = keyword → AllSpelled ts → s.Coherent keyword
  | _, _, _, _, .mk hc hth hss ha, ht, hts => by
    have hcondition := coherent_of_expression hc hts.left
    have hblock := coherent_of_statements hss hts.right.tail.left
    have halternative := coherent_of_alternative ha hts.right.tail.right
    cases ha with
    | none => exact ⟨ht, hcondition, hth, hblock⟩
    | block | branch => exact ⟨ht, hcondition, ⟨hth, hblock⟩, halternative _ rfl⟩

theorem coherent_of_alternative : ∀ {a : Option (Block Token (Stmt Token))} {ts : List Token},
    Salvage.Alternative a ts → AllSpelled ts → ∀ b ∈ a, Block.CoherentAlternative b
  | _, _, .none _, _ => nofun
  | _, _, .block ht hss _, hts => by
    rintro _ ⟨⟩
    exact .inl ⟨ht, coherent_of_statements hss hts.tail.left⟩
  | _, _, .branch ht hs, hts => by
    rintro _ ⟨⟩
    have hbranch := coherent_of_branch hs ht hts.tail
    cases hs with
    | mk => exact .inr ⟨ht, ⟨_, _, _, rfl⟩, hbranch, trivial⟩

end

/-- Every node of a program agrees with its token, whether or not the source has errors. -/
theorem parse_coherent (source : String) (file : Option String) :
    ∀ s ∈ (parse source file).program, s.Coherent .kwIf := by
  have hspelled : AllSpelled (scan source file).tokens := fun _ => spelled_of_token
  exact Stmt.allCoherent_iff.1 (coherent_of_statements (salvage_parse source file) hspelled)

theorem parse_coherent_malformed :
    ∃ s, (parse "if a then x = = 1\n y = -0x1F elseif (b) then return f('c') end" none).program =
      [s] ∧ s.Coherent .kwIf := by
  have hlength : (parse "if a then x = = 1\n y = -0x1F elseif (b) then return f('c') end"
      none).program.length = 1 := by decide +kernel
  obtain ⟨s, hs⟩ := List.length_eq_one_iff.1 hlength
  exact ⟨s, hs, parse_coherent _ none s (hs ▸ List.mem_singleton_self s)⟩

end LuaSyntax

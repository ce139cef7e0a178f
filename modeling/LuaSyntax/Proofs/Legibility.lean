import LuaSyntax.Proofs.Canonical
import LuaSyntax.Proofs.Salvage

/-! The canonical text of a tree says what the tree is, except for its marks: the reader of such
text finds it again. That is shown for each form from its parts, then for whatever is read from
a source. -/

namespace LuaSyntax

namespace Canonical

/-! Expressions. -/

def opensTerm : Kind → Bool
  | .identifier | .numeral | .kwTrue | .kwFalse | .string | .kwNil | .leftBracket => true
  | _ => false

structure Legible (e : Expr Token) : Prop where
  opens : ∀ r, Ends r → ∃ t rest, cut (e.render.toList ++ r) = some (t, rest) ∧
    opensTerm t.kind = true
  reads : ReadsAs readExpr Ends e.render (e.map fun _ => ())

theorem render_of_denotes {t : Token} {e : Expr Token} (h : t.Denotes e) : e.render = t.value := by
  cases h <;> rfl

theorem opensTerm_of_denotes {t : Token} {e : Expr Token} (h : t.Denotes e) :
    opensTerm t.kind = true ∧ t.kind ≠ .leftBracket := by
  cases h with
  | name hk | integer hk | float hk | string hk | nil hk => simp [hk, opensTerm]
  | boolean hk => rcases hk with hk | hk <;> simp [hk, opensTerm]

theorem readLiteral_of_ofToken? {t : Token} {e : Expr Token}
    (h : Expr.ofToken? t = some (.ok e)) :
    readLiteral (t.move fun _ => here) = some (e.map fun _ => ()) := by
  rw [readLiteral, Expr.ofToken?_move, h]
  simp only [Option.map_some, Except.map, Expr.map_map]

theorem legible_literal {t : Token} {e : Expr Token} (ht : t.StandsAlone)
    (h : Expr.ofToken? t = some (.ok e)) : Legible e := by
  have hdenotes := Token.denotes_of_ofToken? h
  obtain ⟨hopens, hbracket⟩ := opensTerm_of_denotes hdenotes
  constructor
  · intro r hr
    rw [render_of_denotes hdenotes, cut_append ht hr.breaks]
    exact ⟨_, _, rfl, hopens⟩
  · apply ReadsAs.of_succ
    intro n hn r hr
    rw [render_of_denotes hdenotes, readExpr, cut_append ht hr.breaks]
    simp only [Option.bind_eq_bind, Option.bind_some, Token.move_kind, if_neg hbracket,
      skip_bracket_of_ends hr, readLiteral_of_ofToken? h]
    rfl

theorem opens_bracketed (s : String) (r : List Char) :
    ∃ t rest, cut ((bracketed s).toList ++ r) = some (t, rest) ∧ opensTerm t.kind = true := by
  simp only [bracketed, String.toList_append, List.append_assoc]
  exact ⟨_, _, cut_bracket _, rfl⟩

theorem legible_unary {op : Token} {e : Expr Token} (ht : op.StandsAlone)
    (hop : op.kind.isUnary = true) (he : Legible e) : Legible (.unary op op.value e) := by
  constructor
  · intro r hr
    rw [Expr.render]
    exact opens_bracketed _ r
  · apply ReadsAs.of_succ
    intro n hn r hr
    have hlen : "[".length = 1 := rfl
    simp only [Expr.render, bracketed, String.length_append, String.toList_append,
      List.append_assoc] at hn ⊢
    have hread := he.reads n (by omega) _ (ends_text "]" rfl (by decide) r)
    simp only [readExpr, cut_bracket, cut_append ht (ends_text " " rfl (by decide) _).breaks,
      Token.move_kind, hop, hread, skip_append, Option.bind_eq_bind, Option.bind_some, if_true]
    rfl

theorem isUnary_of_opensTerm {k : Kind} (h : opensTerm k = true) : ¬k.isUnary = true := by
  cases k <;> first | exact absurd h (by decide) | decide

theorem legible_binary {op : Token} {l r : Expr Token} (ht : op.StandsAlone) (hl : Legible l)
    (hr : Legible r) : Legible (.binary op op.value l r) := by
  constructor
  · intro r hr
    rw [Expr.render]
    exact opens_bracketed _ r
  · apply ReadsAs.of_succ
    intro n hn rest hrest
    have hlen : "[".length = 1 := rfl
    simp only [Expr.render, bracketed, String.length_append, String.toList_append,
      List.append_assoc] at hn ⊢
    have hends : Ends (" ".toList ++ (op.value.toList ++ (" ".toList ++
        (r.render.toList ++ ("]".toList ++ rest))))) := ends_text " " rfl (by decide) _
    have hleft := hl.reads n (by omega) _ hends
    have hright := hr.reads n (by omega) _ (ends_text "]" rfl (by decide) rest)
    -- the left operand starts with no operator, which tells the two forms in brackets apart
    obtain ⟨t, cs, hcut, hopens⟩ := hl.opens _ hends
    simp only [readExpr, cut_bracket, hcut, if_neg (isUnary_of_opensTerm hopens), hleft,
      cut_append ht (ends_text " " rfl (by decide) _).breaks, hright, skip_append,
      Option.bind_eq_bind, Option.bind_some, Token.move_value]
    rfl

theorem renderAll_eq_items (es : List (Expr Token)) : Expr.renderAll es = items Expr.render es := by
  induction es with
  | nil => rfl
  | cons e es ih => simp [Expr.renderAll, ih, items]

theorem legible_call {op t : Token} {es : List (Expr Token)} (ht : t.StandsAlone)
    (hk : t.kind = .identifier) (hes : ∀ e ∈ es, Legible e) :
    Legible (.call op (.ofToken t) es) := by
  have hbracket : t.kind ≠ .leftBracket := by
    rw [hk]
    nofun
  have hcut : ∀ cs, cut (t.value.toList ++ ("[".toList ++ cs)) = some _ := fun cs =>
    cut_append ht (breaks_cons rfl cs)
  constructor
  · intro r hr
    simp only [Expr.render, bracketed, Name.ofToken, String.toList_append, List.append_assoc]
    refine ⟨_, _, hcut _, ?_⟩
    rw [Token.move_kind, hk]
    rfl
  · apply ReadsAs.of_succ
    intro n hn r hr
    have hlen : "[".length = 1 := rfl
    simp only [Expr.render, bracketed, Name.ofToken, renderAll_eq_items, String.length_append,
      String.toList_append, List.append_assoc] at hn ⊢
    have hitems := readItems_of_readsAs (r := "]".toList ++ r)
      (fun r => (closes_bracket r).ends) (fun e he => (hes e he).reads) (n := n) (by omega)
      (fun d hd => ((ends_text "]" rfl (by decide) r) d hd).2)
    simp only [readExpr, hcut, Token.move_kind, Token.move_value, if_neg hbracket, skip_append,
      hitems, Option.bind_eq_bind, Option.bind_some, Expr.map, Expr.mapAll_eq_map]
    rfl

/-! Statements, each form from what it holds. -/

def LegibleStmt (s : Stmt Token) : Prop := ReadsAs readStmt Closes s.render s.erase

theorem readStmt_of_opensTerm {n : Nat} {cs ds : List Char} {t : Token}
    (hcut : cut cs = some (t, ds)) (ht : opensTerm t.kind = true) :
    readStmt (n + 1) cs = do
      let (e, ds) ← readExpr (n + 1) cs
      if (skip " = " ds).isSome then
        let (a, ds) ← readAssign false (n + 1) cs
        return (.assign a, ds)
      else return (.expression () e, ds) := by
  rw [readStmt, hcut]
  simp only [Option.bind_eq_bind, Option.bind_some]
  split <;> first | rfl | simp_all [opensTerm]

theorem readsAs_readAssign {t : Token} {e : Expr Token} (isLocal : Bool) (ht : t.StandsAlone)
    (he : Legible e) :
    ReadsAs (readAssign isLocal) Ends (t.value ++ " = " ++ e.render)
      ⟨(), (Name.ofToken t).map fun _ => (), e.map fun _ => (), isLocal⟩ := by
  intro n hn r hr
  simp only [String.length_append, String.toList_append, List.append_assoc] at hn ⊢
  simp only [readAssign, readName_append ht (ends_text " = " rfl (by decide) _).breaks,
    skip_append, he.reads n (by omega) r hr, Option.bind_eq_bind, Option.bind_some]
  rfl

theorem legible_name {t : Token} (ht : t.StandsAlone) (hk : t.kind = .identifier) :
    Legible (.name (.ofToken t)) :=
  legible_literal ht (by rw [Expr.ofToken?, hk]; rfl)

theorem legibleStmt_expression {e : Expr Token} (t : Token) (he : Legible e) :
    LegibleStmt (.expression t e) := by
  apply ReadsAs.of_succ
  intro n hn r hr
  rw [Stmt.render] at hn ⊢
  obtain ⟨u, ds, hcut, hopens⟩ := he.opens r hr.ends
  -- a statement ends behind the expression, so this is no assignment
  have hnone : skip " = " r = none := skip_eq_none rfl hr.ne_space
  rw [readStmt_of_opensTerm hcut hopens]
  simp only [he.reads (n + 1) (by omega) r hr.ends, hnone, Option.bind_eq_bind, Option.bind_some]
  rfl

theorem legibleStmt_assign {t : Token} {e : Expr Token} (ht : t.StandsAlone)
    (hk : t.kind = .identifier) (he : Legible e) :
    LegibleStmt (.assign ⟨t, .ofToken t, e, false⟩) := by
  apply ReadsAs.of_succ
  intro n hn r hr
  have hrender : (Stmt.assign ⟨t, .ofToken t, e, false⟩).render = t.value ++ " = " ++ e.render := by
    simp [Stmt.render, Assign.render, Name.ofToken]
  rw [hrender] at hn ⊢
  have hends : Ends (" = ".toList ++ (e.render.toList ++ r)) := ends_text " = " rfl (by decide) _
  have hname : ReadsAs readExpr Ends t.value _ := (legible_name ht hk).reads
  have hassign := readsAs_readAssign false ht he (n + 1) (by omega) r hr.ends
  simp only [String.length_append, String.toList_append, List.append_assoc] at hn hassign ⊢
  have hcut := cut_append ht hends.breaks
  rw [readStmt_of_opensTerm hcut (by rw [Token.move_kind, hk]; rfl)]
  simp only [hname (n + 1) (by omega) _ hends, skip_append, hassign, Option.bind_eq_bind,
    Option.bind_some, Option.isSome_some, if_true]
  rfl

theorem legibleStmt_localAssign {n : Token} {e : Expr Token} (t : Token) (hn : n.StandsAlone)
    (he : Legible e) : LegibleStmt (.assign ⟨t, .ofToken n, e, true⟩) := by
  apply ReadsAs.of_succ
  intro m hm r hr
  have hrender : (Stmt.assign ⟨t, .ofToken n, e, true⟩).render =
      "local " ++ (n.value ++ " = " ++ e.render) := by
    simp [Stmt.render, Assign.render, Name.ofToken, String.append_assoc]
  have hlen : "local ".length = 6 := rfl
  have hcut := cut_opener .kwLocal (s := "local ") (by decide) rfl
  rw [hrender, String.length_append] at hm
  rw [hrender, String.toList_append, List.append_assoc]
  have hassign := readsAs_readAssign true hn he m (by omega) r hr.ends
  simp only [readStmt, hcut, Token.synthetic, skip_append, hassign, Option.bind_eq_bind,
    Option.bind_some]
  rfl

theorem legibleStmt_ret (t : Token) : LegibleStmt (.ret t none) := by
  apply ReadsAs.of_succ
  intro n hn r hr
  have hnone : skip " " r = none := skip_eq_none rfl hr.ne_space
  have hcut : cut ("return".toList ++ r) = some (.synthetic .kwReturn "return" here, r) :=
    cut_keyword (k := .kwReturn) (by decide) hr.ends.breaks
  rw [Stmt.render_ret, readStmt, hcut]
  simp only [Token.synthetic, hnone, Option.bind_eq_bind, Option.bind_some]
  rfl

theorem legibleStmt_retValue {e : Expr Token} (t : Token) (he : Legible e) :
    LegibleStmt (.ret t (some e)) := by
  apply ReadsAs.of_succ
  intro n hn r hr
  have hlen : "return ".length = 7 := rfl
  have hcut := cut_opener .kwReturn (s := "return ") (by decide) rfl
  simp only [Stmt.render, String.length_append, String.toList_append, List.append_assoc] at hn ⊢
  simp only [readStmt, hcut, Token.synthetic, skip_append, he.reads n (by omega) r hr.ends,
    Option.bind_eq_bind, Option.bind_some]
  rfl

theorem stmtRenderAll_eq_items (ss : List (Stmt Token)) :
    Stmt.renderAll ss = items Stmt.render ss := by
  induction ss with
  | nil => rfl
  | cons s ss ih => simp [Stmt.renderAll, ih, items]

theorem readItems_body {ss : List (Stmt Token)} (hss : ∀ s ∈ ss, LegibleStmt s) {n : Nat}
    (hn : (Stmt.renderAll ss).length < n) (s : String)
    (hs : s.toList.head? = some ' ') (r : List Char) :
    readItems (readStmt n) n ((Stmt.renderAll ss).toList ++ (s.toList ++ r)) =
      some (ss.map Stmt.erase, s.toList ++ r) := by
  rw [stmtRenderAll_eq_items] at hn ⊢
  refine readItems_of_readsAs closes_bracket hss hn ?_
  exact fun d hd => (ends_text s hs (by decide) r d hd).2

theorem legibleStmt_whileLoop {c : Expr Token} {ss : List (Stmt Token)} (t d : Token)
    (hc : Legible c) (hss : ∀ s ∈ ss, LegibleStmt s) : LegibleStmt (.whileLoop t c ⟨d, ss⟩) := by
  apply ReadsAs.of_succ
  intro n hn r hr
  have hlen : "while ".length = 6 := rfl
  have hcut := cut_opener .kwWhile (s := "while ") (by decide) rfl
  simp only [Stmt.render, Block.render, String.length_append, String.toList_append,
    List.append_assoc] at hn ⊢
  have hcond := fun cs => hc.reads n (by omega) _ (ends_text " do " rfl (by decide) cs)
  have hbody := readItems_body hss (n := n) (by omega) " end" rfl r
  simp only [readStmt, hcut, Token.synthetic, skip_append, hcond, hbody, Option.bind_eq_bind,
    Option.bind_some, Stmt.erase, Stmt.map, Block.map, Stmt.mapAll_eq_map]
  rfl

theorem legibleStmt_condThen {c : Expr Token} {ss : List (Stmt Token)} (t th : Token)
    (hc : Legible c) (hss : ∀ s ∈ ss, LegibleStmt s) : LegibleStmt (.cond t c ⟨th, ss⟩ none) := by
  apply ReadsAs.of_succ
  intro n hn r hr
  have hlen : "if ".length = 3 := rfl
  have hcut := cut_opener .kwIf (s := "if ") (by decide) rfl
  have helse : skip " else " (" end".toList ++ r) = none := rfl
  simp only [Stmt.render, Block.render, String.length_append, String.toList_append,
    List.append_assoc] at hn ⊢
  have hcond := fun cs => hc.reads n (by omega) _ (ends_text " then " rfl (by decide) cs)
  have hbody := readItems_body hss (n := n) (by omega) " end" rfl r
  simp only [readStmt, hcut, Token.synthetic, skip_append, hcond, hbody, helse,
    Option.bind_eq_bind, Option.bind_some, Stmt.erase, Stmt.map, Block.map, Stmt.mapAll_eq_map]
  rfl

theorem legibleStmt_condElse {c : Expr Token} {ss us : List (Stmt Token)} (t th el : Token)
    (hc : Legible c) (hss : ∀ s ∈ ss, LegibleStmt s) (hus : ∀ s ∈ us, LegibleStmt s) :
    LegibleStmt (.cond t c ⟨th, ss⟩ (some ⟨el, us⟩)) := by
  apply ReadsAs.of_succ
  intro n hn r hr
  have hlen : "if ".length = 3 := rfl
  have hcut := cut_opener .kwIf (s := "if ") (by decide) rfl
  simp only [Stmt.render, Block.render, String.length_append, String.toList_append,
    List.append_assoc] at hn ⊢
  have hcond := fun cs => hc.reads n (by omega) _ (ends_text " then " rfl (by decide) cs)
  have hbody := fun cs => readItems_body hss (n := n) (by omega) " else " rfl cs
  have hother := readItems_body hus (n := n) (by omega) " end" rfl r
  simp only [readStmt, hcut, Token.synthetic, skip_append, hcond, hbody, hother,
    Option.bind_eq_bind, Option.bind_some, Stmt.erase, Stmt.map, Block.map, Stmt.mapAll_eq_map]
  rfl

theorem legibleStmt_cond {c : Expr Token} {ss : List (Stmt Token)}
    {a : Option (Block Token (Stmt Token))} (t th : Token) (hc : Legible c)
    (hss : ∀ s ∈ ss, LegibleStmt s) (ha : ∀ b ∈ a, ∀ s ∈ b.body, LegibleStmt s) :
    LegibleStmt (.cond t c ⟨th, ss⟩ a) := by
  rcases a with _ | ⟨el, us⟩
  · exact legibleStmt_condThen t th hc hss
  · exact legibleStmt_condElse t th el hc hss (ha ⟨el, us⟩ rfl)

theorem legibleStmt_repeatLoop {c : Expr Token} {ss : List (Stmt Token)} (t u : Token)
    (hss : ∀ s ∈ ss, LegibleStmt s) (hc : Legible c) : LegibleStmt (.repeatLoop t ⟨u, ss⟩ c) := by
  apply ReadsAs.of_succ
  intro n hn r hr
  have hlen : "repeat ".length = 7 := rfl
  have hcut := cut_opener .kwRepeat (s := "repeat ") (by decide) rfl
  simp only [Stmt.render, Block.render, String.length_append, String.toList_append,
    List.append_assoc] at hn ⊢
  have hbody := fun cs => readItems_body hss (n := n) (by omega) " until " rfl cs
  simp only [readStmt, hcut, Token.synthetic, skip_append, hbody, hc.reads n (by omega) r hr.ends,
    Option.bind_eq_bind, Option.bind_some, Stmt.erase, Stmt.map, Block.map, Stmt.mapAll_eq_map]
  rfl

theorem legibleStmt_forLoop {n : Token} {i l st : Expr Token} {ss : List (Stmt Token)} (t d : Token)
    (hn : n.StandsAlone) (hi : Legible i) (hl : Legible l) (hst : Legible st)
    (hss : ∀ s ∈ ss, LegibleStmt s) :
    LegibleStmt (.forLoop t ⟨n, .ofToken n, i, false⟩ l st ⟨d, ss⟩) := by
  apply ReadsAs.of_succ
  intro m hm r hr
  have hlen : "for ".length = 4 := rfl
  have hcut := cut_opener .kwFor (s := "for ") (by decide) rfl
  have hrender : Assign.render ⟨n, .ofToken n, i, false⟩ = n.value ++ " = " ++ i.render := by
    simp [Assign.render, Name.ofToken]
  simp only [Stmt.render, Block.render, bracketed, hrender, String.length_append] at hm
  have hfits : (n.value ++ " = " ++ i.render).length < m := by
    simp only [String.length_append]
    omega
  have hinit := fun cs =>
    readsAs_readAssign false hn hi m hfits _ (ends_text ", " rfl (by decide) cs)
  have hlimit := fun cs => hl.reads m (by omega) _ (ends_text ", " rfl (by decide) cs)
  have hstep := fun cs => hst.reads m (by omega) _ (ends_text "]" rfl (by decide) cs)
  have hbody := readItems_body hss (n := m) (by omega) " end" rfl r
  simp only [Stmt.render, Block.render, bracketed, hrender, String.toList_append,
    List.append_assoc] at hinit ⊢
  simp only [readStmt, hcut, Token.synthetic, skip_append, hinit, hlimit, hstep, hbody,
    Option.bind_eq_bind, Option.bind_some, Stmt.erase, Stmt.map, Block.map, Stmt.mapAll_eq_map]
  rfl

theorem legibleStmt_function {n : Token} {ps : List (Name Token)} {ss : List (Stmt Token)}
    (t o : Token) (hn : n.StandsAlone)
    (hps : ∀ p ∈ ps, ∃ q : Token, q.StandsAlone ∧ p = .ofToken q)
    (hss : ∀ s ∈ ss, LegibleStmt s) : LegibleStmt (.function t (.ofToken n) ps ⟨o, ss⟩) := by
  apply ReadsAs.of_succ
  intro m hm r hr
  have hlen : "function ".length = 9 := rfl
  have hcut := cut_opener .kwFunction (s := "function ") (by decide) rfl
  have hname : ∀ cs, readName (n.value.toList ++ ("[".toList ++ cs)) = some _ := fun cs =>
    readName_append hn (breaks_cons rfl cs)
  have hnames : ∀ p ∈ ps, ReadsAs (fun _ => readName) Ends p.value (p.map fun _ => ()) := by
    intro p hp n _ r hr
    obtain ⟨q, hq, rfl⟩ := hps p hp
    exact readName_append hq hr.breaks
  have hrender : renderParameters ps = items Name.value ps := rfl
  simp only [Stmt.render, Block.render, Name.ofToken, bracketed, hrender, String.length_append,
    String.toList_append, List.append_assoc] at hm ⊢
  have hparams := fun cs => readItems_of_readsAs (fun r => (closes_bracket r).ends) hnames
    (n := m) (by omega) fun d hd => (ends_text "]" rfl (by decide) cs d hd).2
  have hbody := readItems_body hss (n := m) (by omega) " end" rfl r
  simp only [readStmt, hcut, Token.synthetic, skip_append, hname, hparams, hbody,
    Option.bind_eq_bind, Option.bind_some, Stmt.erase, Stmt.map, Block.map, Stmt.mapAll_eq_map]
  rfl

/-! Trees over tokens that stand alone. -/

def AllStandAlone (ts : List Token) : Prop :=
  ∀ t ∈ ts, t.kind ≠ .newline → t.kind ≠ .illegal → t.StandsAlone

theorem AllStandAlone.tail {t : Token} {ts : List Token} (h : AllStandAlone (t :: ts)) :
    AllStandAlone ts := fun u hu => h u (List.mem_cons_of_mem t hu)

theorem AllStandAlone.left {ts us : List Token} (h : AllStandAlone (ts ++ us)) :
    AllStandAlone ts := fun u hu => h u (List.mem_append_left us hu)

theorem AllStandAlone.right {ts us : List Token} (h : AllStandAlone (ts ++ us)) :
    AllStandAlone us := fun u hu => h u (List.mem_append_right ts hu)

theorem AllStandAlone.of_test {ts : List Token} {t : Token} {p : Kind → Bool}
    (h : AllStandAlone ts) (ht : t ∈ ts) (hp : p t.kind = true) (hline : p .newline = false)
    (hillegal : p .illegal = false) : t.StandsAlone := by
  apply h t ht
  · intro hk
    rw [hk, hline] at hp
    cases hp
  · intro hk
    rw [hk, hillegal] at hp
    cases hp

theorem AllStandAlone.of_name {ts : List Token} {t : Token} (h : AllStandAlone ts) (ht : t ∈ ts)
    (hk : t.kind = .identifier) : t.StandsAlone :=
  h t ht (by rw [hk]; nofun) (by rw [hk]; nofun)

open Grammar

theorem name_of_phrase : ∀ {e : Expr Token} {ts : List Token} {s : Shape}, Phrase e ts s →
    ∀ n, e = .name n → ∃ t ∈ ts, t.kind = .identifier ∧ n = .ofToken t
  | _, _, _, .literal h, n, hn => by
    have hdenotes := Token.denotes_of_ofToken? h
    rw [hn] at hdenotes
    cases hdenotes with
    | name hk => exact ⟨_, List.mem_singleton_self _, hk, rfl⟩
  | _, _, _, .group _ he _, n, hn => by
    obtain ⟨t, ht, hname⟩ := name_of_phrase he n hn
    exact ⟨t, by simp [ht], hname⟩
  | _, _, _, .unary _ _ _, _, hn => nomatch hn
  | _, _, _, .binary _ _ _ _ _, _, hn => nomatch hn
  | _, _, _, .call _ _ _, _, hn => nomatch hn

mutual

theorem legible_of_phrase : ∀ {e : Expr Token} {ts : List Token} {s : Shape}, Phrase e ts s →
    AllStandAlone ts → Legible e
  | _, _, _, .literal h, hts => by
    have hopens := (opensTerm_of_denotes (Token.denotes_of_ofToken? h)).1
    exact legible_literal (hts.of_test (List.mem_singleton_self _) hopens rfl rfl) h
  | _, _, _, .group _ he _, hts => legible_of_phrase he hts.tail.left
  | _, _, _, .unary hop he _, hts =>
    legible_unary (hts.of_test List.mem_cons_self hop rfl rfl) hop (legible_of_phrase he hts.tail)
  | _, _, _, .binary hop hl _ hr _, hts =>
    legible_binary (hts.right.of_test List.mem_cons_self hop rfl rfl)
      (legible_of_phrase hl hts.left) (legible_of_phrase hr hts.right.tail)
  | _, _, _, .call hn _ hes, hts => by
    obtain ⟨t, ht, hk, rfl⟩ := name_of_phrase hn _ rfl
    exact legible_call (hts.left.of_name ht hk) hk (legible_of_arguments hes hts.right.tail)

theorem legible_of_arguments : ∀ {es : List (Expr Token)} {ts : List Token}, Arguments es ts →
    AllStandAlone ts → ∀ e ∈ es, Legible e
  | _, _, .none _, _ => List.forall_mem_nil _
  | _, _, .some he hes, hts => List.forall_mem_cons.2
    ⟨legible_of_phrase he hts.left, legible_of_moreArguments hes hts.right⟩

theorem legible_of_moreArguments : ∀ {es : List (Expr Token)} {ts : List Token},
    MoreArguments es ts → AllStandAlone ts → ∀ e ∈ es, Legible e
  | _, _, .close _, _ => List.forall_mem_nil _
  | _, _, .comma _ he hes, hts => List.forall_mem_cons.2
    ⟨legible_of_phrase he hts.tail.left, legible_of_moreArguments hes hts.tail.right⟩

end

theorem legible_of_expression {e : Expr Token} {ts : List Token} (h : Expression e ts)
    (hts : AllStandAlone ts) : Legible e := by
  obtain ⟨s, he⟩ := h
  exact legible_of_phrase he hts

theorem names_of_moreParameters {rp : Token} {ps : List (Name Token)} {us : List Token}
    (h : MoreParameters rp ps us) : ∀ p ∈ ps, ∃ q ∈ us, q.kind = .identifier ∧ p = .ofToken q := by
  induction h with
  | close => exact List.forall_mem_nil _
  | @comma c q ps us hc hq _ ih =>
    rw [List.forall_mem_cons]
    refine ⟨⟨q, by simp, hq, rfl⟩, fun p hp => ?_⟩
    obtain ⟨x, hx, hname⟩ := ih p hp
    exact ⟨x, by simp [hx], hname⟩

theorem names_of_parameters {rp : Token} {ps : List (Name Token)} {us : List Token}
    (h : Parameters rp ps us) : ∀ p ∈ ps, ∃ q ∈ us, q.kind = .identifier ∧ p = .ofToken q := by
  cases h with
  | none => exact List.forall_mem_nil _
  | @some q ps us hq hps =>
    rw [List.forall_mem_cons]
    refine ⟨⟨q, by simp, hq, rfl⟩, fun p hp => ?_⟩
    obtain ⟨x, hx, hname⟩ := names_of_moreParameters hps p hp
    exact ⟨x, by simp [hx], hname⟩

theorem legible_defaultStep (p : Position) : Legible (Parse.defaultStep p) := by
  have hfirst : (Lexeme.first '1' []).1 = ⟨some .numeral, "1".toList⟩ := rfl
  have hkind : (Lexeme.first '1' []).1.kind = some .numeral := by rw [hfirst]
  obtain ⟨ds, htext, hcut⟩ := Lexeme.first_append_breaks hkind (by decide) (by decide)
  rw [hfirst] at htext
  have halone : (Token.synthetic .numeral "1" p).StandsAlone := ⟨'1', ds, htext, hcut⟩
  have hvalue : Number.ofText? "1".toList = some (.integer (Int64.ofNat 1)) := rfl
  apply legible_literal halone
  simp only [Expr.ofToken?, Expr.ofNumeral, Token.synthetic, hvalue]
  rfl

theorem legible_of_step {d : Token} {st : Expr Token} {ts : List Token} (h : Step d st ts)
    (hts : AllStandAlone ts) : Legible st := by
  cases h with
  | given _ he => exact legible_of_expression he hts.tail
  | omitted => exact legible_defaultStep d.start

mutual

theorem legible_of_statement : ∀ {s : Stmt Token} {ts : List Token}, Salvage.Statement s ts →
    AllStandAlone ts → LegibleStmt s
  | _, _, .expression he, hts => legibleStmt_expression _ (legible_of_expression he hts)
  | _, _, .assign ht _ he, hts =>
    legibleStmt_assign (hts.of_name List.mem_cons_self ht) ht
      (legible_of_expression he hts.tail.tail)
  | _, _, .localAssign _ hn _ he, hts =>
    legibleStmt_localAssign _ (hts.tail.of_name List.mem_cons_self hn)
      (legible_of_expression he hts.tail.tail.tail)
  | _, _, .ret _, _ => legibleStmt_ret _
  | _, _, .retValue _ he, hts => legibleStmt_retValue _ (legible_of_expression he hts.tail)
  | _, _, .cond _ hs, hts => legible_of_branch hs hts.tail
  | _, _, .whileLoop _ hc _ hss _, hts =>
    legibleStmt_whileLoop _ _ (legible_of_expression hc hts.tail.left)
      (legible_of_statements hss hts.tail.right.tail.left)
  | _, _, .forLoop _ hh hss _, hts => by
    have hbody := legible_of_statements hss hts.tail.right.left
    have hhead := hts.tail.left
    cases hh with
    | mk hn _ hi _ hl hst _ =>
      have hinit := legible_of_expression hi hhead.tail.tail.left
      have hlimit := legible_of_expression hl hhead.tail.tail.right.tail.left
      have hstep := legible_of_step hst hhead.tail.tail.right.tail.right.left
      exact legibleStmt_forLoop _ _ (hhead.of_name List.mem_cons_self hn) hinit hlimit hstep hbody
  | _, _, .repeatLoop _ hss _ hc, hts =>
    legibleStmt_repeatLoop _ _ (legible_of_statements hss hts.tail.left)
      (legible_of_expression hc hts.tail.right.tail)
  | _, _, .function _ hh hss _, hts => by
    have hbody := legible_of_statements hss hts.tail.right.left
    have hhead := hts.tail.left
    cases hh with
    | mk hn _ hps =>
      refine legibleStmt_function _ _ (hhead.of_name List.mem_cons_self hn) (fun p hp => ?_) hbody
      obtain ⟨q, hq, hk, rfl⟩ := names_of_parameters hps p hp
      exact ⟨q, hhead.tail.tail.of_name hq hk, rfl⟩

theorem legible_of_statements : ∀ {ss : List (Stmt Token)} {ts : List Token},
    Salvage.Statements ss ts → AllStandAlone ts → ∀ s ∈ ss, LegibleStmt s
  | _, _, .nil, _ => List.forall_mem_nil _
  | _, _, .skip hss, hts => legible_of_statements hss hts.tail
  | _, _, .cons hs hss, hts => List.forall_mem_cons.2
    ⟨legible_of_statement hs hts.left, legible_of_statements hss hts.right⟩

theorem legible_of_branch : ∀ {t : Token} {s : Stmt Token} {ts : List Token},
    Salvage.Branch t s ts → AllStandAlone ts → LegibleStmt s
  | _, _, _, .mk hc _ hss ha, hts =>
    legibleStmt_cond _ _ (legible_of_expression hc hts.left)
      (legible_of_statements hss hts.right.tail.left)
      (legible_of_alternative ha hts.right.tail.right)

theorem legible_of_alternative : ∀ {a : Option (Block Token (Stmt Token))} {ts : List Token},
    Salvage.Alternative a ts → AllStandAlone ts → ∀ b ∈ a, ∀ s ∈ b.body, LegibleStmt s
  | _, _, .none _, _ => nofun
  | _, _, .block _ hss _, hts => by
    rintro _ ⟨⟩
    exact legible_of_statements hss hts.tail.left
  | _, _, .branch _ hs, hts => by
    rintro _ ⟨⟩
    exact List.forall_mem_singleton.2 (legible_of_branch hs hts.tail)

end

/-! Programs. -/

theorem LegibleStmt.exists_cons {s : Stmt Token} (h : LegibleStmt s) :
    ∃ c cs, s.render.toList = c :: cs := by
  cases hs : s.render.toList with
  | cons c cs => exact ⟨c, cs, rfl⟩
  | nil =>
    have hread := h (s.render.length + 1) (Nat.lt_succ_self _) [] nofun
    rw [hs] at hread
    cases hread

theorem readLines_last {s : Stmt Token} (hs : LegibleStmt s) {n : Nat}
    (hn : s.render.length < n) : readLines (n + 1) s.render.toList = some [s.erase] := by
  obtain ⟨c, cs, hcs⟩ := hs.exists_cons
  have hread := hs n hn [] nofun
  rw [List.append_nil] at hread
  rw [hcs] at hread ⊢
  simp only [readLines, hread]

theorem readLines_line {s : Stmt Token} (hs : LegibleStmt s) {n : Nat} (hn : s.render.length < n)
    (r : List Char) :
    readLines (n + 1) (s.render.toList ++ ("\n".toList ++ r)) =
      (readLines n r).map (s.erase :: ·) := by
  obtain ⟨c, cs, hcs⟩ := hs.exists_cons
  have hcloses : Closes ("\n".toList ++ r) := by
    rintro _ ⟨⟩
    exact .inl rfl
  have hread := hs n hn _ hcloses
  rw [hcs, List.cons_append] at hread ⊢
  simp only [readLines, hread]
  rfl

theorem readLines_render {ss : List (Stmt Token)} (hss : ∀ s ∈ ss, LegibleStmt s) {n : Nat}
    (hn : (Program.render ss).length < n) :
    readLines (n + 1) (Program.render ss).toList = some (ss.map Stmt.erase) := by
  induction ss generalizing n with
  | nil => rfl
  | cons s us ih =>
    obtain ⟨hs, hus⟩ := List.forall_mem_cons.1 hss
    cases us with
    | nil =>
      have hrender : Program.render [s] = s.render := String.intercalate_singleton
      rw [hrender] at hn ⊢
      exact readLines_last hs hn
    | cons u us =>
      have hrender : Program.render (s :: u :: us) =
          s.render ++ "\n" ++ Program.render (u :: us) := String.intercalate_cons_cons
      have hlen : "\n".length = 1 := rfl
      simp only [hrender, String.length_append] at hn
      simp only [hrender, String.toList_append, List.append_assoc]
      obtain ⟨m, rfl⟩ : ∃ m, n = m + 1 := ⟨n - 1, by omega⟩
      rw [readLines_line hs (by omega), ih hus (by omega)]
      rfl

end Canonical

theorem readProgram_render (source : String) (file : Option String) :
    Canonical.readProgram (Program.render (parse source file).program) =
      some ((parse source file).program.map Stmt.erase) := by
  have hts : Canonical.AllStandAlone (scan source file).tokens :=
    fun _ ht => standsAlone_of_token ht
  have hlegible := Canonical.legible_of_statements (salvage_parse source file) hts
  exact Canonical.readLines_render hlegible (Nat.lt_succ_self _)

/-- Programs of one canonical text are the same, but for their marks. -/
theorem erase_eq_of_render_eq (source₁ source₂ : String) (file₁ file₂ : Option String)
    (h : Program.render (parse source₁ file₁).program =
      Program.render (parse source₂ file₂).program) :
    (parse source₁ file₁).program.map Stmt.erase =
      (parse source₂ file₂).program.map Stmt.erase := by
  have hread := readProgram_render source₁ file₁
  rw [h, readProgram_render source₂ file₂] at hread
  exact (Option.some.inj hread).symm

theorem erase_eq_of_render_eq_layouts :
    Program.render (parse "x = (1 + 2) * f(\"] [\")\n)\nif x then return end" none).program =
        Program.render (parse "x=(1+2)*(f)(\"] [\");for\nif x then\nreturn;end" none).program ∧
      (parse "x = (1 + 2) * f(\"] [\")\n)\nif x then return end" none).program.map Stmt.erase =
        (parse "x=(1+2)*(f)(\"] [\");for\nif x then\nreturn;end" none).program.map Stmt.erase :=
  have h : Program.render (parse "x = (1 + 2) * f(\"] [\")\n)\nif x then return end" none).program =
      Program.render (parse "x=(1+2)*(f)(\"] [\");for\nif x then\nreturn;end" none).program := by
    decide +kernel
  ⟨h, erase_eq_of_render_eq _ _ none none h⟩

end LuaSyntax

import LuaSyntax.Proofs.Lines

/-! Spellings of programs. A spelling of a tree without marks encloses every operand that has an
operator of its own in parentheses, and so every bare expression; it parts statements by
separators. Every tree of the forms that are ever read has one, in the tokens of some text. -/

namespace LuaSyntax

namespace Spelling

mutual

/-- The tokens spell the expression. The flag tells that it can be an operand as it stands. -/
inductive SpelledExpr : Expr Unit → List Token → Bool → Prop
  | name {t x} (ht : t.kind = .identifier) (hx : t.value = x) :
      SpelledExpr (.name ⟨(), x⟩) [t] true
  | integer {t n} (ht : t.kind = .numeral)
      (hn : Number.ofText? t.value.toList = some (.integer n)) :
      SpelledExpr (.integer () n) [t] true
  | float {t x} (ht : t.kind = .numeral) (hx : Number.ofText? t.value.toList = some (.float x)) :
      SpelledExpr (.float () x) [t] true
  | boolean {t b} (ht : t.kind = if b then .kwTrue else .kwFalse)
      (hb : t.value = if b then "true" else "false") : SpelledExpr (.boolean () b) [t] true
  | string {t x} (ht : t.kind = .string) (hx : Escape.decode t.value = x) :
      SpelledExpr (.string () x) [t] true
  | nil {t} (ht : t.kind = .kwNil) : SpelledExpr (.nil ()) [t] true
  | call {t x lp es us} (ht : t.kind = .identifier) (hx : t.value = x)
      (hlp : lp.kind = .leftParen) (hes : SpelledArguments es us) :
      SpelledExpr (.call () ⟨(), x⟩ es) (t :: lp :: us) true
  | group {lp e ts b rp} (hlp : lp.kind = .leftParen) (he : SpelledExpr e ts b)
      (hrp : rp.kind = .rightParen) : SpelledExpr e (lp :: (ts ++ [rp])) true
  | unary {op o e ts} (hop : op.kind.isUnary = true) (ho : op.value = o)
      (he : SpelledExpr e ts true) : SpelledExpr (.unary () o e) (op :: ts) false
  | binary {op o l ls r rs} (hop : op.kind.isBinary = true) (ho : op.value = o)
      (hl : SpelledExpr l ls true) (hr : SpelledExpr r rs true) :
      SpelledExpr (.binary () o l r) (ls ++ op :: rs) false

inductive SpelledArguments : List (Expr Unit) → List Token → Prop
  | none {rp} (h : rp.kind = .rightParen) : SpelledArguments [] [rp]
  | some {e ts b es us} (he : SpelledExpr e ts b) (hes : SpelledMoreArguments es us) :
      SpelledArguments (e :: es) (ts ++ us)

inductive SpelledMoreArguments : List (Expr Unit) → List Token → Prop
  | close {rp} (h : rp.kind = .rightParen) : SpelledMoreArguments [] [rp]
  | comma {c e ts b es us} (hc : c.kind = .comma) (he : SpelledExpr e ts b)
      (hes : SpelledMoreArguments es us) : SpelledMoreArguments (e :: es) (c :: (ts ++ us))

end

inductive SpelledMoreParameters : List (Name Unit) → List Token → Prop
  | close {rp} (h : rp.kind = .rightParen) : SpelledMoreParameters [] [rp]
  | comma {c t x ps us} (hc : c.kind = .comma) (ht : t.kind = .identifier) (hx : t.value = x)
      (hps : SpelledMoreParameters ps us) : SpelledMoreParameters (⟨(), x⟩ :: ps) (c :: t :: us)

inductive SpelledParameters : List (Name Unit) → List Token → Prop
  | none {rp} (h : rp.kind = .rightParen) : SpelledParameters [] [rp]
  | some {t x ps us} (ht : t.kind = .identifier) (hx : t.value = x)
      (hps : SpelledMoreParameters ps us) : SpelledParameters (⟨(), x⟩ :: ps) (t :: us)

inductive SpelledStep : Expr Unit → List Token → Prop
  | given {c e ts b} (hc : c.kind = .comma) (he : SpelledExpr e ts b) : SpelledStep e (c :: ts)
  | omitted : SpelledStep (.integer () 1) []

def Separated (us : List Token) : Prop := ∀ t ∈ us.head?, t.kind.isSeparator = true

mutual

/-- The tokens spell the statement. A bare expression other than a call is in parentheses. -/
inductive SpelledStmt : Stmt Unit → List Token → Prop
  | call {t x lp es us} (ht : t.kind = .identifier) (hx : t.value = x)
      (hlp : lp.kind = .leftParen) (hes : SpelledArguments es us) :
      SpelledStmt (.expression () (.call () ⟨(), x⟩ es)) (t :: lp :: us)
  | expression {lp e ts b rp} (hlp : lp.kind = .leftParen) (he : SpelledExpr e ts b)
      (hrp : rp.kind = .rightParen) : SpelledStmt (.expression () e) (lp :: (ts ++ [rp]))
  | assign {t x eq e ts b} (ht : t.kind = .identifier) (hx : t.value = x) (heq : eq.kind = .assign)
      (he : SpelledExpr e ts b) : SpelledStmt (.assign ⟨(), ⟨(), x⟩, e, false⟩) (t :: eq :: ts)
  | localAssign {t n x eq e ts b} (ht : t.kind = .kwLocal) (hn : n.kind = .identifier)
      (hx : n.value = x) (heq : eq.kind = .assign) (he : SpelledExpr e ts b) :
      SpelledStmt (.assign ⟨(), ⟨(), x⟩, e, true⟩) (t :: n :: eq :: ts)
  | ret {t} (ht : t.kind = .kwReturn) : SpelledStmt (.ret () none) [t]
  | retValue {t e ts b} (ht : t.kind = .kwReturn) (he : SpelledExpr e ts b) :
      SpelledStmt (.ret () (some e)) (t :: ts)
  | cond {t s ts} (ht : t.kind = .kwIf) (hs : SpelledBranch s ts) : SpelledStmt s (t :: ts)
  | whileLoop {t c cs b d ss bs e} (ht : t.kind = .kwWhile) (hc : SpelledExpr c cs b)
      (hd : d.kind = .kwDo) (hss : SpelledBody ss bs) (he : e.kind = .kwEnd) :
      SpelledStmt (.whileLoop () c ⟨(), ss⟩) (t :: (cs ++ d :: (bs ++ [e])))
  | forLoop {t n x eq i is bi c l ls bl st sts d ss bs e} (ht : t.kind = .kwFor)
      (hn : n.kind = .identifier) (hx : n.value = x) (heq : eq.kind = .assign)
      (hi : SpelledExpr i is bi) (hc : c.kind = .comma) (hl : SpelledExpr l ls bl)
      (hst : SpelledStep st sts) (hd : d.kind = .kwDo) (hss : SpelledBody ss bs)
      (he : e.kind = .kwEnd) :
      SpelledStmt (.forLoop () ⟨(), ⟨(), x⟩, i, false⟩ l st ⟨(), ss⟩)
        (t :: (n :: eq :: (is ++ c :: (ls ++ (sts ++ [d]))) ++ (bs ++ [e])))
  | repeatLoop {t ss bs u c cs b} (ht : t.kind = .kwRepeat) (hss : SpelledBody ss bs)
      (hu : u.kind = .kwUntil) (hc : SpelledExpr c cs b) :
      SpelledStmt (.repeatLoop () ⟨(), ss⟩ c) (t :: (bs ++ u :: cs))
  | function {t n x lp ps us ss bs e} (ht : t.kind = .kwFunction) (hn : n.kind = .identifier)
      (hx : n.value = x) (hlp : lp.kind = .leftParen) (hps : SpelledParameters ps us)
      (hss : SpelledBody ss bs) (he : e.kind = .kwEnd) :
      SpelledStmt (.function () ⟨(), x⟩ ps ⟨(), ss⟩) (t :: (n :: lp :: us ++ (bs ++ [e])))

/-- Statements with separators after each of them, optional after the last one, and before the
first. -/
inductive SpelledBody : List (Stmt Unit) → List Token → Prop
  | nil : SpelledBody [] []
  | separator {t ss ts} (ht : t.kind.isSeparator = true) (hss : SpelledBody ss ts) :
      SpelledBody ss (t :: ts)
  | cons {s ts ss us} (hs : SpelledStmt s ts) (hus : Separated us) (hss : SpelledBody ss us) :
      SpelledBody (s :: ss) (ts ++ us)

inductive SpelledBranch : Stmt Unit → List Token → Prop
  | mk {c cs b th ss bs a us} (hc : SpelledExpr c cs b) (hth : th.kind = .kwThen)
      (hss : SpelledBody ss bs) (ha : SpelledAlternative a us) :
      SpelledBranch (.cond () c ⟨(), ss⟩ a) (cs ++ th :: (bs ++ us))

/-- The second block of a conditional. One that holds a single conditional may be an `elseif`,
which shares the `end`, or an `else` like any other. -/
inductive SpelledAlternative : Option (Block Unit (Stmt Unit)) → List Token → Prop
  | none {e} (he : e.kind = .kwEnd) : SpelledAlternative none [e]
  | block {t ss bs e} (ht : t.kind = .kwElse) (hss : SpelledBody ss bs) (he : e.kind = .kwEnd) :
      SpelledAlternative (some ⟨(), ss⟩) (t :: (bs ++ [e]))
  | branch {t s ts} (ht : t.kind = .kwElseif) (hs : SpelledBranch s ts) :
      SpelledAlternative (some ⟨(), [s]⟩) (t :: ts)

end

/-! Writing tokens one after the other, with blanks between them. -/

def IsToken (w : Kind × String) : Prop :=
  w.1 ≠ .newline ∧ lexemes (w.2.toList ++ [' ']) = [⟨some w.1, w.2.toList⟩, ⟨none, [' ']⟩]

def written (ws : List (Kind × String)) : List Char := ws.flatMap fun w => w.2.toList ++ [' ']

theorem IsToken.not_isBlank {w : Kind × String} (h : IsToken w) :
    ∃ c cs, w.2.toList ++ [' '] = c :: cs ∧ Lexeme.isBlank c = false := by
  obtain ⟨c, cs, hcs, hfirst, -⟩ := lexemes_eq_cons h.2
  refine ⟨c, cs, hcs, ?_⟩
  cases hblank : Lexeme.isBlank c with
  | false => rfl
  | true =>
    have hkind := congrArg (fun r => r.1.kind) hfirst
    simp [Lexeme.first, hblank, Lexeme.blanks] at hkind

theorem lexemes_written {ws : List (Kind × String)} (h : ∀ w ∈ ws, IsToken w) :
    lexemes (written ws) = ws.flatMap fun w => [⟨some w.1, w.2.toList⟩, ⟨none, [' ']⟩] := by
  induction ws with
  | nil => exact lexemes_nil
  | cons w ws ih =>
    obtain ⟨hw, hws⟩ := List.forall_mem_cons.1 h
    -- nothing after the blank belongs to it
    have hblank : lexemes (' ' :: written ws) = ⟨none, [' ']⟩ :: lexemes (written ws) := by
      cases ws with
      | nil => exact lexemes_cons _ _
      | cons v vs =>
        obtain ⟨c, cs, hcs, hc⟩ := (hws v List.mem_cons_self).not_isBlank
        have hwritten : written (v :: vs) = c :: (cs ++ written vs) := by
          rw [written, List.flatMap_cons, hcs]
          rfl
        have hfirst : Lexeme.first ' ' (c :: (cs ++ written vs)) =
            (⟨none, [' ']⟩, c :: (cs ++ written vs)) := by
          change Lexeme.blanks ' ' _ = _
          simp [Lexeme.blanks, hc]
        rw [hwritten, lexemes_cons, hfirst]
    have hcut : lexemes (List.flatMap Lexeme.text [⟨some w.1, w.2.toList⟩] ++ [' ']) =
        [⟨some w.1, w.2.toList⟩] ++ [⟨none, [' ']⟩] := by
      simpa using hw.2
    have hfront := lexemes_before hcut (written ws)
    rw [hblank, ih hws] at hfront
    simpa [written] using hfront

theorem content_tokenize_written {ws : List (Kind × String)} (h : ∀ w ∈ ws, IsToken w)
    (file : Option String) :
    (tokenize (String.ofList (written ws)) file).dropLast.map Token.content = ws := by
  rw [dropLast_tokenize, scan, scanChars, Scanned.map_content_ofLexemes, String.toList_ofList,
    lexemes_written h]
  induction ws with
  | nil => rfl
  | cons w ws ih =>
    obtain ⟨hw, hws⟩ := List.forall_mem_cons.1 h
    simpa [Lexeme.token, Token.content, hw.1] using ih hws

def IsName (x : String) : Prop :=
  ∃ c cs, x.toList = c :: cs ∧ Lexeme.isWordStart c = true ∧
    (∀ d ∈ cs, Lexeme.isWordPart d = true) ∧ Kind.ofWord x = .identifier

theorem not_isDigit_of_isWordStart {c : Char} (h : Lexeme.isWordStart c = true) :
    Text.isDigit c = false := by
  by_cases hc : c = '_'
  · subst hc
    rfl
  simp only [Lexeme.isWordStart, Text.isLetter, Text.isDigit, Bool.or_eq_true, Bool.and_eq_true,
    decide_eq_true_eq, Bool.and_eq_false_iff, decide_eq_false_iff_not, beq_iff_eq, hc, or_false,
    Char.le_def, UInt32.le_iff_toNat_le] at h ⊢
  have hdigits : ('0'.val.toNat = 48 ∧ '9'.val.toNat = 57) ∧ ('a'.val.toNat = 97 ∧
      'A'.val.toNat = 65) := by decide
  omega

theorem first_of_isWordStart {c : Char} (h : Lexeme.isWordStart c = true) (cs : List Char) :
    Lexeme.first c cs = Lexeme.word c cs := by
  have hne : ∀ d, Lexeme.isWordStart d = false → c ≠ d := by
    rintro d hd rfl
    rw [h] at hd
    cases hd
  have hblank : Lexeme.isBlank c = false := by
    simp [Lexeme.isBlank, hne ' ' rfl, hne '\t' rfl, hne '\x0b' rfl, hne '\x0c' rfl]
  simp [Lexeme.first, hblank, hne '\n' rfl, hne '\r' rfl, hne '-' rfl, hne '"' rfl,
    hne '\x27' rfl, not_isDigit_of_isWordStart h, h]

theorem isToken_of_isName {x : String} (h : IsName x) : IsToken (.identifier, x) := by
  obtain ⟨c, cs, hx, hc, hcs, hword⟩ := h
  refine ⟨nofun, ?_⟩
  obtain ⟨htake, hdrop⟩ := Lexeme.span_of_all hcs (n := ' ') (by decide) []
  have htext : String.ofList (c :: cs) = x := by rw [← hx, String.ofList_toList]
  have hfirst : Lexeme.first c (cs ++ [' ']) = (⟨some .identifier, c :: cs⟩, [' ']) := by
    rw [first_of_isWordStart hc, Lexeme.word, htake, hdrop, htext, hword]
  have hblank : lexemes [' '] = [⟨none, [' ']⟩] := by decide +kernel
  rw [hx, List.cons_append, lexemes_cons, hfirst, hblank]

theorem isToken_of_mem {k : Kind} (h : k ∈ Kind.keywords ++ Kind.symbols) :
    IsToken (k, k.text) := by
  have hall : ∀ k ∈ Kind.keywords ++ Kind.symbols, k ≠ .newline ∧
      lexemes (k.text.toList ++ [' ']) = [⟨some k, k.text.toList⟩, ⟨none, [' ']⟩] := by
    decide +kernel
  exact hall k h

/-! The trees that can be written. -/

mutual

def WritableExpr : Expr Unit → Prop
  | .name n => IsName n.value
  | .integer _ v => ∃ w, IsToken (.numeral, w) ∧ Number.ofText? w.toList = some (.integer v)
  | .float _ v => ∃ w, IsToken (.numeral, w) ∧ Number.ofText? w.toList = some (.float v)
  | .boolean _ _ | .nil _ => True
  | .string _ v => ∃ w, IsToken (.string, w) ∧ Escape.decode w = v
  | .unary _ o e => (∃ k : Kind, k.isUnary = true ∧ k.text = o) ∧ WritableExpr e
  | .binary _ o l r =>
    (∃ k : Kind, k.isBinary = true ∧ k.text = o) ∧ WritableExpr l ∧ WritableExpr r
  | .call _ n es => IsName n.value ∧ WritableArguments es

def WritableArguments : List (Expr Unit) → Prop
  | [] => True
  | e :: es => WritableExpr e ∧ WritableArguments es

end

mutual

/-- No block stands alone, and no `for` counts in a local name. -/
def WritableStmt : Stmt Unit → Prop
  | .expression _ e => WritableExpr e
  | .assign a => IsName a.name.value ∧ WritableExpr a.value
  | .ret _ none => True
  | .ret _ (some e) => WritableExpr e
  | .block _ => False
  | .cond _ c b none => WritableExpr c ∧ WritableBlock b
  | .cond _ c b (some a) => WritableExpr c ∧ WritableBlock b ∧ WritableBlock a
  | .whileLoop _ c b | .repeatLoop _ b c => WritableExpr c ∧ WritableBlock b
  | .forLoop _ i l s b =>
    i.isLocal = false ∧ IsName i.name.value ∧ WritableExpr i.value ∧ WritableExpr l ∧
      WritableExpr s ∧ WritableBlock b
  | .function _ n ps b => IsName n.value ∧ (∀ p ∈ ps, IsName p.value) ∧ WritableBlock b

def WritableBlock : Block Unit (Stmt Unit) → Prop
  | ⟨_, ss⟩ => WritableBody ss

def WritableBody : List (Stmt Unit) → Prop
  | [] => True
  | s :: ss => WritableStmt s ∧ WritableBody ss

end

def Spellable (P : List Token → Prop) : Prop :=
  ∃ ws, (∀ w ∈ ws, IsToken w) ∧ ∀ ts : List Token, ts.map Token.content = ws → P ts

def One (k : Kind) (x : String) (ts : List Token) : Prop :=
  ∃ t, ts = [t] ∧ t.kind = k ∧ t.value = x

def Then (P Q : List Token → Prop) (ts : List Token) : Prop :=
  ∃ us vs, ts = us ++ vs ∧ P us ∧ Q vs

namespace Spellable

variable {P Q : List Token → Prop}

theorem mono (h : Spellable P) (hPQ : ∀ ts, P ts → Q ts) : Spellable Q := by
  obtain ⟨ws, hws, hP⟩ := h
  exact ⟨ws, hws, fun ts hts => hPQ ts (hP ts hts)⟩

theorem nil (h : P []) : Spellable P := by
  refine ⟨[], List.forall_mem_nil _, ?_⟩
  intro ts hts
  rwa [List.map_eq_nil_iff.1 hts]

theorem one {k : Kind} {x : String} (h : IsToken (k, x)) : Spellable (One k x) := by
  refine ⟨[(k, x)], List.forall_mem_singleton.2 h, ?_⟩
  intro ts hts
  obtain ⟨t, rfl, ht⟩ := List.map_eq_singleton_iff.1 hts
  exact ⟨t, rfl, (Prod.mk.inj ht).1, (Prod.mk.inj ht).2⟩

theorem andThen (hP : Spellable P) (hQ : Spellable Q) : Spellable (Then P Q) := by
  obtain ⟨us, hus, hP⟩ := hP
  obtain ⟨vs, hvs, hQ⟩ := hQ
  refine ⟨us ++ vs, List.forall_mem_append.2 ⟨hus, hvs⟩, ?_⟩
  intro ts hts
  obtain ⟨us', vs', rfl, hus', hvs'⟩ := List.map_eq_append_iff.1 hts
  exact ⟨us', vs', rfl, hP us' hus', hQ vs' hvs'⟩

theorem fixed (k : Kind) (hk : k ∈ Kind.keywords ++ Kind.symbols) : Spellable (One k k.text) :=
  one (isToken_of_mem hk)

theorem exists_text (h : Spellable P) (file : Option String) :
    ∃ text, P (tokenize text file).dropLast := by
  obtain ⟨ws, hws, hP⟩ := h
  exact ⟨_, hP _ (content_tokenize_written hws file)⟩

theorem operand {e : Expr Unit} (h : Spellable fun ts => ∃ b, SpelledExpr e ts b) :
    Spellable fun ts => SpelledExpr e ts true := by
  refine ((fixed .leftParen (by decide)).andThen
    (h.andThen (fixed .rightParen (by decide)))).mono ?_
  rintro _ ⟨_, _, rfl, ⟨lp, rfl, hlp, -⟩, _, _, rfl, ⟨b, he⟩, rp, rfl, hrp, -⟩
  exact .group hlp he hrp

end Spellable

open Spellable

theorem mem_of_isUnary {k : Kind} (h : k.isUnary = true) : k ∈ Kind.keywords ++ Kind.symbols := by
  revert h
  cases k <;> decide

theorem mem_of_isBinary {k : Kind} (h : k.isBinary = true) : k ∈ Kind.keywords ++ Kind.symbols := by
  revert h
  cases k <;> decide

mutual

theorem spellable_expr : ∀ e : Expr Unit, WritableExpr e →
    Spellable fun ts => ∃ b, SpelledExpr e ts b
  | .name _, h => by
    refine (one (isToken_of_isName h)).mono ?_
    rintro _ ⟨t, rfl, ht, hx⟩
    exact ⟨true, .name ht hx⟩
  | .integer _ _, h => by
    obtain ⟨w, hw, hv⟩ := h
    refine (one hw).mono ?_
    rintro _ ⟨t, rfl, ht, rfl⟩
    exact ⟨true, .integer ht hv⟩
  | .float _ _, h => by
    obtain ⟨w, hw, hv⟩ := h
    refine (one hw).mono ?_
    rintro _ ⟨t, rfl, ht, rfl⟩
    exact ⟨true, .float ht hv⟩
  | .boolean _ true, _ => by
    refine (fixed .kwTrue (by decide)).mono ?_
    rintro _ ⟨t, rfl, ht, hx⟩
    exact ⟨true, .boolean ht hx⟩
  | .boolean _ false, _ => by
    refine (fixed .kwFalse (by decide)).mono ?_
    rintro _ ⟨t, rfl, ht, hx⟩
    exact ⟨true, .boolean ht hx⟩
  | .string _ _, h => by
    obtain ⟨w, hw, hv⟩ := h
    refine (one hw).mono ?_
    rintro _ ⟨t, rfl, ht, rfl⟩
    exact ⟨true, .string ht hv⟩
  | .nil _, _ => by
    refine (fixed .kwNil (by decide)).mono ?_
    rintro _ ⟨t, rfl, ht, -⟩
    exact ⟨true, .nil ht⟩
  | .unary _ _ e, h => by
    have he := spellable_expr e h.2
    obtain ⟨k, hk, rfl⟩ := h.1
    refine ((fixed k (mem_of_isUnary hk)).andThen he.operand).mono ?_
    rintro _ ⟨_, _, rfl, ⟨t, rfl, rfl, hx⟩, he⟩
    exact ⟨false, .unary hk hx he⟩
  | .binary _ _ l r, h => by
    have hl := spellable_expr l h.2.1
    have hr := spellable_expr r h.2.2
    obtain ⟨k, hk, rfl⟩ := h.1
    refine (hl.operand.andThen ((fixed k (mem_of_isBinary hk)).andThen hr.operand)).mono ?_
    rintro _ ⟨_, _, rfl, hl, _, _, rfl, ⟨t, rfl, rfl, hx⟩, hr⟩
    exact ⟨false, .binary hk hx hl hr⟩
  | .call _ _ es, h => by
    have hes := spellable_arguments es h.2
    refine ((one (isToken_of_isName h.1)).andThen
      ((fixed .leftParen (by decide)).andThen hes)).mono ?_
    rintro _ ⟨_, _, rfl, ⟨t, rfl, ht, hx⟩, _, _, rfl, ⟨lp, rfl, hlp, -⟩, hes⟩
    exact ⟨true, .call ht hx hlp hes⟩

theorem spellable_arguments : ∀ es : List (Expr Unit), WritableArguments es →
    Spellable (SpelledArguments es)
  | [], _ => by
    refine (fixed .rightParen (by decide)).mono ?_
    rintro _ ⟨rp, rfl, hrp, -⟩
    exact .none hrp
  | e :: es, h => by
    refine ((spellable_expr e h.1).andThen (spellable_moreArguments es h.2)).mono ?_
    rintro _ ⟨_, _, rfl, ⟨b, he⟩, hes⟩
    exact .some he hes

theorem spellable_moreArguments : ∀ es : List (Expr Unit), WritableArguments es →
    Spellable (SpelledMoreArguments es)
  | [], _ => by
    refine (fixed .rightParen (by decide)).mono ?_
    rintro _ ⟨rp, rfl, hrp, -⟩
    exact .close hrp
  | e :: es, h => by
    refine ((fixed .comma (by decide)).andThen
      ((spellable_expr e h.1).andThen (spellable_moreArguments es h.2))).mono ?_
    rintro _ ⟨_, _, rfl, ⟨c, rfl, hc, -⟩, _, _, rfl, ⟨b, he⟩, hes⟩
    rw [List.singleton_append]
    exact .comma hc he hes

end

theorem spellable_moreParameters {ps : List (Name Unit)} (h : ∀ p ∈ ps, IsName p.value) :
    Spellable (SpelledMoreParameters ps) := by
  induction ps with
  | nil =>
    refine (fixed .rightParen (by decide)).mono ?_
    rintro _ ⟨rp, rfl, hrp, -⟩
    exact .close hrp
  | cons p ps ih =>
    obtain ⟨hp, hps⟩ := List.forall_mem_cons.1 h
    refine ((fixed .comma (by decide)).andThen
      ((one (isToken_of_isName hp)).andThen (ih hps))).mono ?_
    rintro _ ⟨_, _, rfl, ⟨c, rfl, hc, -⟩, _, _, rfl, ⟨t, rfl, ht, hx⟩, hps⟩
    exact .comma hc ht hx hps

theorem spellable_parameters : ∀ ps : List (Name Unit), (∀ p ∈ ps, IsName p.value) →
    Spellable (SpelledParameters ps)
  | [], _ => by
    refine (fixed .rightParen (by decide)).mono ?_
    rintro _ ⟨rp, rfl, hrp, -⟩
    exact .none hrp
  | p :: ps, h => by
    obtain ⟨hp, hps⟩ := List.forall_mem_cons.1 h
    refine ((one (isToken_of_isName hp)).andThen (spellable_moreParameters hps)).mono ?_
    rintro _ ⟨_, _, rfl, ⟨t, rfl, ht, hx⟩, hps⟩
    exact .some ht hx hps

mutual

theorem spellable_stmt : ∀ s : Stmt Unit, WritableStmt s → Spellable (SpelledStmt s)
  | .expression _ e, h => by
    refine ((fixed .leftParen (by decide)).andThen
      ((spellable_expr e h).andThen (fixed .rightParen (by decide)))).mono ?_
    rintro _ ⟨_, _, rfl, ⟨lp, rfl, hlp, -⟩, _, _, rfl, ⟨b, he⟩, rp, rfl, hrp, -⟩
    exact .expression hlp he hrp
  | .assign ⟨_, _, e, false⟩, h => by
    refine ((one (isToken_of_isName h.1)).andThen
      ((fixed .assign (by decide)).andThen (spellable_expr e h.2))).mono ?_
    rintro _ ⟨_, _, rfl, ⟨t, rfl, ht, hx⟩, _, _, rfl, ⟨eq, rfl, heq, -⟩, b, he⟩
    exact .assign ht hx heq he
  | .assign ⟨_, _, e, true⟩, h => by
    refine ((fixed .kwLocal (by decide)).andThen ((one (isToken_of_isName h.1)).andThen
      ((fixed .assign (by decide)).andThen (spellable_expr e h.2)))).mono ?_
    rintro _ ⟨_, _, rfl, ⟨t, rfl, ht, -⟩, _, _, rfl, ⟨n, rfl, hn, hx⟩, _, _, rfl,
      ⟨eq, rfl, heq, -⟩, b, he⟩
    exact .localAssign ht hn hx heq he
  | .ret _ none, _ => by
    refine (fixed .kwReturn (by decide)).mono ?_
    rintro _ ⟨t, rfl, ht, -⟩
    exact .ret ht
  | .ret _ (some e), h => by
    refine ((fixed .kwReturn (by decide)).andThen (spellable_expr e h)).mono ?_
    rintro _ ⟨_, _, rfl, ⟨t, rfl, ht, -⟩, b, he⟩
    exact .retValue ht he
  | .block _, h => h.elim
  | .cond _ c ⟨_, ss⟩ none, h => by
    refine ((fixed .kwIf (by decide)).andThen ((spellable_expr c h.1).andThen
      ((fixed .kwThen (by decide)).andThen ((spellable_body ss h.2).andThen
        (fixed .kwEnd (by decide)))))).mono ?_
    rintro _ ⟨_, _, rfl, ⟨t, rfl, ht, -⟩, _, _, rfl, ⟨b, hc⟩, _, _, rfl, ⟨th, rfl, hth, -⟩,
      _, _, rfl, hss, e, rfl, he, -⟩
    have hbranch := SpelledBranch.mk hc hth hss (.none he)
    exact .cond ht hbranch
  | .cond _ c ⟨_, ss⟩ (some ⟨_, as⟩), h => by
    refine ((fixed .kwIf (by decide)).andThen ((spellable_expr c h.1).andThen
      ((fixed .kwThen (by decide)).andThen ((spellable_body ss h.2.1).andThen
        ((fixed .kwElse (by decide)).andThen ((spellable_body as h.2.2).andThen
          (fixed .kwEnd (by decide)))))))).mono ?_
    rintro _ ⟨_, _, rfl, ⟨t, rfl, ht, -⟩, _, _, rfl, ⟨b, hc⟩, _, _, rfl, ⟨th, rfl, hth, -⟩,
      _, _, rfl, hss, _, _, rfl, ⟨el, rfl, hel, -⟩, _, _, rfl, has, e, rfl, he, -⟩
    have hbranch := SpelledBranch.mk hc hth hss (.block hel has he)
    exact .cond ht hbranch
  | .whileLoop _ c ⟨_, ss⟩, h => by
    refine ((fixed .kwWhile (by decide)).andThen ((spellable_expr c h.1).andThen
      ((fixed .kwDo (by decide)).andThen ((spellable_body ss h.2).andThen
        (fixed .kwEnd (by decide)))))).mono ?_
    rintro _ ⟨_, _, rfl, ⟨t, rfl, ht, -⟩, _, _, rfl, ⟨b, hc⟩, _, _, rfl, ⟨d, rfl, hd, -⟩,
      _, _, rfl, hss, e, rfl, he, -⟩
    exact .whileLoop ht hc hd hss he
  | .repeatLoop _ ⟨_, ss⟩ c, h => by
    refine ((fixed .kwRepeat (by decide)).andThen ((spellable_body ss h.2).andThen
      ((fixed .kwUntil (by decide)).andThen (spellable_expr c h.1)))).mono ?_
    rintro _ ⟨_, _, rfl, ⟨t, rfl, ht, -⟩, _, _, rfl, hss, _, _, rfl, ⟨u, rfl, hu, -⟩, b, hc⟩
    exact .repeatLoop ht hss hu hc
  | .forLoop _ ⟨_, _, i, _⟩ l s ⟨_, ss⟩, h => by
    obtain ⟨rfl, hn, hi, hl, hs, hss⟩ := h
    have hstep : Spellable (SpelledStep s) := by
      refine ((fixed .comma (by decide)).andThen (spellable_expr s hs)).mono ?_
      rintro _ ⟨_, _, rfl, ⟨c, rfl, hc, -⟩, b, hs⟩
      exact .given hc hs
    have hbody := (fixed .kwDo (by decide)).andThen
      ((spellable_body ss hss).andThen (fixed .kwEnd (by decide)))
    have hlimit := (fixed .comma (by decide)).andThen
      ((spellable_expr l hl).andThen (hstep.andThen hbody))
    have hinit := (fixed .assign (by decide)).andThen ((spellable_expr i hi).andThen hlimit)
    refine ((fixed .kwFor (by decide)).andThen
      ((one (isToken_of_isName hn)).andThen hinit)).mono ?_
    rintro _ ⟨_, _, rfl, ⟨t, rfl, ht, -⟩, _, _, rfl, ⟨n, rfl, hn, hx⟩, _, _, rfl,
      ⟨eq, rfl, heq, -⟩, _, _, rfl, ⟨bi, hi⟩, _, _, rfl, ⟨c, rfl, hc, -⟩, _, _, rfl, ⟨bl, hl⟩,
      _, _, rfl, hstep, _, _, rfl, ⟨d, rfl, hd, -⟩, _, _, rfl, hss, e, rfl, he, -⟩
    have hspelled := SpelledStmt.forLoop ht hn hx heq hi hc hl hstep hd hss he
    simpa using hspelled
  | .function _ _ ps ⟨_, ss⟩, h => by
    obtain ⟨hn, hps, hss⟩ := h
    refine ((fixed .kwFunction (by decide)).andThen ((one (isToken_of_isName hn)).andThen
      ((fixed .leftParen (by decide)).andThen ((spellable_parameters ps hps).andThen
        ((spellable_body ss hss).andThen (fixed .kwEnd (by decide))))))).mono ?_
    rintro _ ⟨_, _, rfl, ⟨t, rfl, ht, -⟩, _, _, rfl, ⟨n, rfl, hn, hx⟩, _, _, rfl,
      ⟨lp, rfl, hlp, -⟩, _, _, rfl, hps, _, _, rfl, hss, e, rfl, he, -⟩
    exact .function ht hn hx hlp hps hss he

theorem spellable_body : ∀ ss : List (Stmt Unit), WritableBody ss → Spellable (SpelledBody ss)
  | [], _ => .nil .nil
  | s :: ss, h => by
    refine ((spellable_stmt s h.1).andThen
      ((fixed .semicolon (by decide)).andThen (spellable_body ss h.2))).mono ?_
    rintro _ ⟨_, _, rfl, hs, _, _, rfl, ⟨t, rfl, ht, -⟩, hss⟩
    have hsep : t.kind.isSeparator = true := by rw [ht]; rfl
    refine .cons hs ?_ (.separator hsep hss)
    rintro _ ⟨⟩
    exact hsep

end

end Spelling

end LuaSyntax

import LuaSyntax.Proofs.CallOrder
import LuaSyntax.Proofs.Tiling

/-! Scanning and reading end. Every call is made with fewer tokens left than the call of the same
routine around it, and no statement is attempted twice at one token. -/

namespace LuaSyntax

/-! Every call is below its caller. -/

namespace Visit

/-- The visit has fewer tokens left than `v`, or as many and is of a lower routine. -/
def Below (w v : Visit) : Prop :=
  w.remaining.length < v.remaining.length ∨
    w.remaining.length = v.remaining.length ∧ w.routine.rank < v.routine.rank

theorem Below.trans {u v w : Visit} (huv : u.Below v) (hvw : v.Below w) : u.Below w := by
  unfold Below at *
  omega

theorem Below.measure_lt {v w : Visit} (h : w.Below v) :
    4 * w.remaining.length + w.routine.rank < 4 * v.remaining.length + v.routine.rank := by
  have := w.routine.rank_lt
  unfold Below at h
  omega

theorem below_of_suffix {v w : Visit} {t : Token} {us : List Token} (hv : v.remaining = t :: us)
    (hw : w.remaining <:+ us) : w.Below v := by
  have := hw.length_le
  rw [Below, hv, List.length_cons]
  omega

variable (stop : Position)

theorem length_rest_expr_lt {level : Precedence} {ts rest : List Token} {e : Expr Token}
    (h : (Parse.expr stop level ts).outcome = .done e rest) : rest.length < ts.length := by
  cases ts with
  | nil => simp at h
  | cons t us =>
    rw [Parse.outcome_expr_cons] at h
    have := (Attempt.suffix_of_outcome h).length_le
    rw [List.length_cons]
    omega

theorem below_of_mem_branch {t : Token} {us : List Token} {w : Visit}
    (h : w ∈ (branch t us).calls stop) : w.Below (branch t us) := by
  rcases Traced.mem_calls_bind h with hexpr | ⟨c, vs, hc, hrest⟩
  · obtain rfl := List.mem_singleton.1 hexpr
    exact .inr ⟨rfl, Nat.zero_lt_one⟩
  · have hle := ((Traced.between_ofConsequence stop t c vs).calls.begins w hrest).length_le
    exact .inl (Nat.lt_of_le_of_lt hle (length_rest_expr_lt stop hc))

theorem below_of_mem_statement {t : Token} {us : List Token} {w : Visit}
    (h : w ∈ (statement t us).calls stop) : w.Below (statement t us) := by
  rw [calls] at h
  split at h
  · exact absurd h List.not_mem_nil
  · rcases Traced.ofStmt_cases stop t us with hexpr | hbetween
    · rw [hexpr] at h
      obtain rfl := List.mem_singleton.1 h
      exact .inr ⟨rfl, Nat.zero_lt_one⟩
    · exact below_of_suffix rfl (hbetween.calls.begins w h)

theorem below_of_leaf {v w : Visit} (hv : v.routine.rank = 0) (h : w ∈ v.calls stop) :
    w.Below v := by
  rcases leaf_cases stop hv with hnil | ⟨t, us, hremaining, hcalls⟩
  · rw [hnil] at h
    exact absurd h List.not_mem_nil
  · exact below_of_suffix hremaining (hcalls.begins w h)

theorem below_of_loop {v w : Visit} (hv : v.routine.rank = 2) (h : w ∈ v.calls stop) :
    w.Below v := by
  rcases loop_cases stop hv with hnil | ⟨t, us, ws, hloop⟩
  · rw [hnil] at h
    exact absurd h List.not_mem_nil
  rw [hloop.calls] at h
  rcases List.mem_cons.1 h with rfl | hmem
  · exact .inr ⟨congrArg List.length hloop.remaining.symm, hv ▸ Nat.one_lt_two⟩
  · exact below_of_suffix hloop.remaining (hloop.inside.begins w hmem)

/-- Every call is made with fewer tokens left, or with as many by a higher routine. -/
theorem below_of_mem_calls {v w : Visit} (h : w ∈ v.calls stop) : w.Below v := by
  cases v with
  | program | pass => exact below_of_loop stop rfl h
  | statement t us => exact below_of_mem_statement stop h
  | branch t us => exact below_of_mem_branch stop h
  | block construct terminator opener us =>
    obtain rfl := List.mem_singleton.1 h
    exact .inr ⟨rfl, Nat.lt_succ_self 2⟩
  | _ => exact below_of_leaf stop rfl h

def nested (stop : Position) (v : Visit) : List Visit :=
  (v.calls stop).attach.flatMap fun ⟨w, _⟩ => w :: nested stop w
termination_by 4 * v.remaining.length + v.routine.rank
decreasing_by
  next h => exact (below_of_mem_calls stop h).measure_lt

theorem nested_eq (v : Visit) :
    v.nested stop = (v.calls stop).flatMap fun w => w :: w.nested stop := by
  rw [nested, List.flatMap_subtype (fun w _ => rfl), List.unattach_attach]

theorem below_of_mem_nested {v w : Visit} (h : w ∈ v.nested stop) : w.Below v := by
  rw [nested_eq, List.mem_flatMap] at h
  obtain ⟨u, hu, hw⟩ := h
  -- The visit is a call or is nested in one, which is below `v` already.
  have hbelow := below_of_mem_calls stop hu
  rcases List.mem_cons.1 hw with rfl | hmem
  · exact hbelow
  · exact (below_of_mem_nested hmem).trans hbelow
termination_by 4 * v.remaining.length + v.routine.rank
decreasing_by exact hbelow.measure_lt

/-- A routine is entered again only with fewer tokens left. -/
theorem length_lt_of_mem_nested {v w : Visit} (h : w ∈ v.nested stop)
    (hsame : w.routine = v.routine) : w.remaining.length < v.remaining.length := by
  rcases below_of_mem_nested stop h with hlt | ⟨-, hrank⟩
  · exact hlt
  · rw [hsame] at hrank
    exact absurd hrank (Nat.lt_irrefl _)

/-! Statements are attempted one behind the other. -/

def place : Visit → Option (List Token)
  | statement t us => some (t :: us)
  | _ => none

theorem place_eq_none {v : Visit} (h : v.routine ≠ .statement) : v.place = none := by
  cases v with
  | statement t us => exact absurd rfl h
  | _ => rfl

def attempts (stop : Position) (v : Visit) : List (List Token) := (v.nested stop).filterMap place

theorem attempts_eq (v : Visit) :
    v.attempts stop = (v.calls stop).flatMap fun w => w.place.toList ++ w.attempts stop := by
  rw [attempts, nested_eq, List.filterMap_flatMap]
  congr 1
  funext w
  cases h : w.place <;> simp [h, attempts]

theorem length_of_mem_attempts {v : Visit} {p : List Token} (h : p ∈ v.attempts stop) :
    p.length < v.remaining.length ∨ p.length = v.remaining.length ∧ 1 < v.routine.rank := by
  obtain ⟨w, hw, hplace⟩ := List.mem_filterMap.1 h
  have hbelow := below_of_mem_nested stop hw
  cases w with
  | statement t us =>
    cases hplace
    exact hbelow
  | _ => cases hplace

structure Forward (stop : Position) (v : Visit) : Prop where
  descending : (v.attempts stop).Pairwise fun p q => q.length < p.length
  before : ∀ p ∈ v.attempts stop, (v.finish stop).length < p.length

section

variable {stop : Position} {us rest : List Token} {ws : List Visit}

theorem Between.attempts_eq (h : Between stop us ws rest) :
    (ws.flatMap fun w => w.place.toList ++ w.attempts stop) = ws.flatMap (attempts stop) := by
  refine List.flatMap_congr fun w hw => ?_
  rw [place_eq_none (h.simple w hw)]
  rfl

theorem length_le_of_mem_attempts {v : Visit} {p : List Token} (h : p ∈ v.attempts stop) :
    p.length ≤ v.remaining.length := by
  have := length_of_mem_attempts stop h
  omega

variable (hws : ∀ w ∈ ws, w.Forward stop)
include hws

theorem Between.descending (h : Between stop us ws rest) :
    (ws.flatMap (attempts stop)).Pairwise fun p q => q.length < p.length := by
  refine List.pairwise_flatMap.2 ⟨fun w hw => (hws w hw).descending, ?_⟩
  refine h.ordered.imp_of_mem fun {v w} hv _ hvw p hp q hq => ?_
  -- The attempts of the later visit lie behind the end of the earlier one.
  calc q.length ≤ w.remaining.length := length_le_of_mem_attempts hq
    _ ≤ (v.finish stop).length := hvw.length_le
    _ < p.length := (hws v hv).before p hp

theorem Between.bounds (h : Between stop us ws rest) {p : List Token}
    (hp : p ∈ ws.flatMap (attempts stop)) : rest.length < p.length ∧ p.length ≤ us.length := by
  obtain ⟨w, hw, hpw⟩ := List.mem_flatMap.1 hp
  constructor
  · exact Nat.lt_of_le_of_lt (h.ends w hw).length_le ((hws w hw).before p hpw)
  · exact (length_le_of_mem_attempts hpw).trans (h.begins w hw).length_le

end

theorem Between.forward {v : Visit} (h : Between stop v.remaining (v.calls stop) (v.finish stop))
    (hcalls : ∀ w ∈ v.calls stop, w.Forward stop) : v.Forward stop := by
  have heq : v.attempts stop = (v.calls stop).flatMap (attempts stop) := by
    rw [Visit.attempts_eq, h.attempts_eq]
  refine ⟨heq ▸ h.descending hcalls, ?_⟩
  intro p hp
  rw [heq] at hp
  exact (h.bounds hcalls hp).1

/-- A pass attempts its statement first. What the statement attempts lies behind its first token
and before its end, and the next pass begins behind both. -/
theorem Loop.forward {v : Visit} {t : Token} {us : List Token} {ws : List Visit}
    (h : Loop stop v t us ws) (hcalls : ∀ w ∈ v.calls stop, w.Forward stop) : v.Forward stop := by
  have hstatement : (statement t us).Forward stop := hcalls _ (h.calls ▸ List.mem_cons_self)
  have hws : ∀ w ∈ ws, w.Forward stop := fun w hw => hcalls w (h.calls ▸ List.mem_cons_of_mem _ hw)
  have hinner : ∀ p ∈ (statement t us).attempts stop, p.length ≤ us.length := by
    intro p hp
    rcases length_of_mem_attempts stop hp with hlt | ⟨-, hrank⟩
    · exact Nat.le_of_lt_succ hlt
    · exact absurd hrank (Nat.lt_irrefl 1)
  have heq : v.attempts stop =
      (t :: us) :: ((statement t us).attempts stop ++ ws.flatMap (attempts stop)) := by
    rw [Visit.attempts_eq, h.calls, List.flatMap_cons, h.inside.attempts_eq]
    rfl
  constructor
  · rw [heq, List.pairwise_cons, List.pairwise_append]
    refine ⟨?_, hstatement.descending, h.inside.descending hws, ?_⟩
    · intro q hq
      rcases List.mem_append.1 hq with hq | hq
      · exact Nat.lt_succ_of_le (hinner q hq)
      · exact Nat.lt_succ_of_le (h.inside.bounds hws hq).2
    · intro p hp q hq
      calc q.length ≤ ((statement t us).finish stop).length := (h.behind.bounds hws hq).2
        _ < p.length := hstatement.before p hp
  · intro p hp
    rw [heq] at hp
    rcases List.mem_cons.1 hp with rfl | hp
    · exact Nat.lt_succ_of_le h.finish.length_le
    rcases List.mem_append.1 hp with hp | hp
    · exact Nat.lt_of_le_of_lt h.ends.length_le (hstatement.before p hp)
    · exact (h.inside.bounds hws hp).1

theorem forward (v : Visit) : v.Forward stop := by
  have hcalls : ∀ w ∈ v.calls stop, w.Forward stop := by
    intro w hw
    have hbelow := below_of_mem_calls stop hw
    exact forward w
  by_cases hv : v.routine.rank = 2
  · rcases loop_cases stop hv with hnil | ⟨t, us, ws, hloop⟩
    · have heq : v.attempts stop = [] := by rw [Visit.attempts_eq, hnil, List.flatMap_nil]
      exact ⟨heq ▸ .nil, heq ▸ List.forall_mem_nil _⟩
    · exact hloop.forward stop hcalls
  · exact (between_calls stop hv).forward stop hcalls
termination_by 4 * v.remaining.length + v.routine.rank
decreasing_by exact hbelow.measure_lt

end Visit

/-! Scanning. -/

namespace Scanner

/-- One pass of the loop that looks for a token: over blanks or a comment to what follows them, or
to the token and what follows that. -/
def pass (s : Scanner) : Scanner ⊕ Token × Scanner :=
  match s with
  | ⟨p, []⟩ => .inr (Token.eof p, ⟨p, []⟩)
  | ⟨p, c :: cs⟩ =>
    let cut := Lexeme.first c cs
    let stop := p.after cut.1.text cut.2.head?
    match cut.1.kind with
    | none => .inl ⟨stop, cut.2⟩
    | some k => .inr (cut.1.token k p stop, ⟨stop, cut.2⟩)

theorem next_eq_pass (s : Scanner) : s.next = s.pass.elim next id := by
  obtain ⟨p, cs⟩ := s
  cases cs with
  | nil =>
    rw [next, pass]
    rfl
  | cons c cs =>
    rw [next, pass]
    cases (Lexeme.first c cs).1.kind <;> rfl

theorem length_pass_lt (p : Position) (c : Char) (cs : List Char) :
    ((pass ⟨p, c :: cs⟩).elim id Prod.snd).rest.length < (c :: cs).length := by
  rw [pass]
  cases hkind : (Lexeme.first c cs).1.kind <;> simpa [hkind] using Lexeme.length_first_lt c cs

theorem length_lt_of_pass {s s' : Scanner} (h : s.pass = .inl s') :
    s'.rest.length < s.rest.length := by
  obtain ⟨p, cs⟩ := s
  cases cs with
  | nil => cases h
  | cons c cs =>
    have hlt := length_pass_lt p c cs
    rwa [h] at hlt

theorem length_scanned_le (s : Scanner) : s.scanned.tokens.length ≤ s.rest.length := by
  rw [scanned_eq_next]
  split
  · exact Nat.zero_le _
  · next h =>
    have hlt := length_next_lt h
    have hle := length_scanned_le s.next.2
    rw [List.length_cons]
    omega
termination_by s.rest.length

end Scanner

theorem length_tokenize_le (source : String) (file : Option String) :
    (tokenize source file).length ≤ source.length + 1 := by
  have hle := Scanner.length_scanned_le (.ofChars source.toList file)
  rw [tokenize, Scanned.toList, List.length_append]
  exact Nat.add_le_add_right (hle.trans_eq source.length_toList) 1

/-- Scanning and reading a source end. A pass over blanks or a comment and every token but the end
of input take a character, so there is one token for each character at most and then the one end
of input. The parser is made of its visits; a routine is entered in the course of itself, and a
loop passed again, only with fewer tokens left; a block whose statement fails on a closing keyword
or at the end ends there; and the statements of a program are attempted one behind the other. -/
theorem scan_parse_descend (source : String) (file : Option String) :
    (∀ s s' : Scanner, s.pass = .inl s' → s'.rest.length < s.rest.length) ∧
    (∀ s : Scanner, s.next.1.kind ≠ .endOfInput → s.next.2.rest.length < s.rest.length) ∧
    (tokenize source file).length ≤ source.length + 1 ∧
    (∃ ts stop, tokenize source file = ts ++ [Token.eof stop] ∧
      ∀ t ∈ ts, t.kind ≠ .endOfInput) ∧
    (∀ stop, ∀ v : Visit, v.Faithful stop ∧ ∀ w ∈ v.nested stop, w.routine = v.routine →
      w.remaining.length < v.remaining.length) ∧
    (∀ stop construct terminator t us log d rest, ¬t.kind.isBlockEnd = true →
      ¬t.kind.isSeparator = true →
      (Parse.stmtFrom stop t us).run = ⟨log, .failed d (.on rest)⟩ →
      (∀ u ∈ rest.head?, u.kind.isBlockEnd = true) →
      (Visit.pass construct terminator (t :: us)).calls stop =
          [.statement t us, .pass construct terminator rest] ∧
        (Visit.pass construct terminator rest).calls stop = []) ∧
    ((Visit.program (scan source file).tokens).attempts (scan source file).stop).Pairwise
      fun p q => q.length < p.length := by
  refine ⟨fun _ _ => Scanner.length_lt_of_pass, fun _ => Scanner.length_next_lt,
    length_tokenize_le source file, ?_, ?_, ?_, ?_⟩
  · exact ⟨(scan source file).tokens, (scan source file).stop, rfl, fun _ => kind_ne_endOfInput⟩
  · intro stop v
    exact ⟨v.faithful stop, fun w => Visit.length_lt_of_mem_nested stop⟩
  · intro stop construct terminator t us log d rest hend hsep hrun hrest
    exact Visit.calls_of_failed_at_end stop construct terminator hend hsep hrun hrest
  · exact (Visit.forward (scan source file).stop (.program (scan source file).tokens)).descending

/-- The `while` fails on the `until`, at which its block ended, and the rest of that line is
skipped. -/
example :
    let scanned := scan "while a do\n x = until b\n y(end" none
    (((Visit.program scanned.tokens).attempts scanned.stop).filterMap List.head?).map Token.value =
      ["while", "", "x", "", "y"] := by decide +kernel

end LuaSyntax

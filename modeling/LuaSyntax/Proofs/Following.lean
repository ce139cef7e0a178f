import LuaSyntax.Session
import LuaSyntax.Proofs.Descent

/-! What it means that a session reads as the readers do. A reading of a session is compared with a
traced run: what it returns, where the parser stands then, what it has reported and which calls for
statements it has made. The comparison is closed under putting readings one behind the other. -/

namespace LuaSyntax

namespace Visit

variable (stop : Position)

theorem attempts_recovery (ts : List Token) : (recovery ts).attempts stop = [] := by
  induction ts with
  | nil =>
    rw [attempts_eq]
    rfl
  | cons u us ih =>
    rw [attempts_eq, calls]
    split
    · rfl
    · rw [List.flatMap_singleton, ih]
      rfl

theorem attempts_of_separator {t : Token} (us : List Token) (h : t.kind.isSeparator = true) :
    (statement t us).attempts stop = [] := by
  rw [attempts_eq, calls, if_pos h, List.flatMap_nil]

end Visit

theorem Halt.mem_recoveries (halt : Halt) {w : Visit} (h : w ∈ halt.recoveries) :
    ∃ ts, w = .recovery ts := by
  unfold recoveries at h
  split at h
  · cases h
  · split at h
    · cases h
    · exact ⟨_, List.mem_singleton.1 h⟩
  · exact ⟨_, List.mem_singleton.1 h⟩

theorem Halt.mem_recoveriesInBlock (halt : Halt) {w : Visit} (h : w ∈ halt.recoveriesInBlock) :
    ∃ ts, w = .recovery ts := by
  unfold recoveriesInBlock at h
  split at h
  · split at h
    · cases h
    · exact mem_recoveries _ h
  · exact mem_recoveries _ h

namespace Traced

variable {α β : Type} (stop : Position)

def attempts (x : Traced α) : List (List Token) :=
  x.calls.flatMap fun w => w.place.toList ++ w.attempts stop

theorem attempts_bind_of_done {x : Traced α} {f : α → List Token → Traced β} {a : α}
    {rest : List Token} (h : x.run.outcome = .done a rest) :
    (x.bind f).attempts stop = x.attempts stop ++ (f a rest).attempts stop := by
  obtain ⟨calls, log, o⟩ := x
  cases h
  exact List.flatMap_append

theorem attempts_bind_of_failed {x : Traced α} {f : α → List Token → Traced β} {d : Diagnostic}
    {halt : Halt} (h : x.run.outcome = .failed d halt) :
    (x.bind f).attempts stop = x.attempts stop := by
  obtain ⟨calls, log, o⟩ := x
  cases h
  rfl

theorem attempts_call {x : Traced α} {v : Visit} (hcalls : v.calls stop = x.calls)
    (hplace : v.place = none) (r : Run β) :
    (⟨[v], r⟩ : Traced β).attempts stop = x.attempts stop := by
  rw [attempts, attempts, List.flatMap_singleton, hplace, ← hcalls, ← Visit.attempts_eq]
  rfl

theorem attempts_pass (t : Token) (us : List Token) {ws : List Visit} (v : Visit) (r : Run α)
    (hws : ∀ w ∈ ws, ∃ ts, w = .recovery ts) (r' : Run β) :
    (⟨.statement t us :: (ws ++ [v]), r⟩ : Traced α).attempts stop =
      ((t :: us) :: (Visit.statement t us).attempts stop) ++
        (⟨[v], r'⟩ : Traced β).attempts stop := by
  have hrecoveries : (ws.flatMap fun w => w.place.toList ++ w.attempts stop) = [] := by
    refine List.flatMap_eq_nil_iff.2 fun w hw => ?_
    obtain ⟨ts, rfl⟩ := hws w hw
    exact Visit.attempts_recovery stop ts
  rw [attempts, List.flatMap_cons, List.flatMap_append, hrecoveries]
  rfl

end Traced

/-! Where a parser stands. -/

def Kind.isPlain (k : Kind) : Bool := k != .newline && !k.isBlockEnd && k != .endOfInput

namespace Parser

def IsPlain (p : Parser) : Prop := p.current.kind.isPlain = true

structure Covers (p q : Parser) : Prop where
  stop_eq : q.stop = p.stop
  suffix : q.tokens <:+ p.tokens

structure Stands (p q : Parser) (rest : List Token) : Prop extends p.Covers q where
  tokens_eq : q.tokens = rest

structure Ends (p q : Parser) (rest : List Token) : Prop extends p.Covers q where
  ne_nil : q.tokens ≠ []
  tail_eq : q.tokens.tail = rest

/-- The parser has moved onto the token before `rest`, which is part of a statement. -/
structure Rests (p q : Parser) (rest : List Token) : Prop extends p.Ends q rest where
  isPlain : q.IsPlain

def Stops (p q : Parser) : Halt → Prop
  | .on rest => p.Stands q rest
  | .before rest => p.Rests q rest

section

variable {p q : Parser} {rest : List Token}

theorem Covers.refl (p : Parser) : p.Covers p := ⟨rfl, List.suffix_rfl⟩

theorem Covers.next (h : p.Covers q) : p.Covers q.next :=
  ⟨h.stop_eq, (List.tail_suffix _).trans h.suffix⟩

theorem Covers.stands (h : p.Covers q) : p.Stands q q.tokens := ⟨h, rfl⟩

theorem Covers.current_eq (h : p.Covers q) : q.current = q.tokens.headD (.eof p.stop) := by
  rw [current, h.stop_eq]

theorem Covers.current_of_nil (h : p.Covers q) (htokens : q.tokens = []) :
    q.current = .eof p.stop := by
  rw [h.current_eq, htokens, List.headD_nil]

theorem Stands.current_eq {t : Token} (h : p.Stands q (t :: rest)) : q.current = t := by
  rw [h.toCovers.current_eq, h.tokens_eq, List.headD_cons]

theorem Stands.next {t : Token} (h : p.Stands q (t :: rest)) : p.Stands q.next rest :=
  ⟨h.toCovers.next, congrArg List.tail h.tokens_eq⟩

theorem Ends.peek_eq (h : p.Ends q rest) : q.peek = rest.headD (.eof p.stop) := by
  rw [peek, h.tail_eq, h.stop_eq]

theorem Ends.next (h : p.Ends q rest) : p.Stands q.next rest := ⟨h.toCovers.next, h.tail_eq⟩

theorem Stands.ends {t : Token} (h : p.Stands q (t :: rest)) : p.Ends q rest := by
  refine ⟨h.toCovers, ?_, congrArg List.tail h.tokens_eq⟩
  rw [h.tokens_eq]
  exact List.cons_ne_nil t rest

theorem Stands.rests {t : Token} (h : p.Stands q (t :: rest)) (ht : t.kind.isPlain = true) :
    p.Rests q rest := by
  refine ⟨h.ends, ?_⟩
  rw [IsPlain, h.current_eq]
  exact ht

theorem Covers.eq_mk (h : p.Covers q) :
    q = ⟨p.tokens.drop (p.tokens.length - q.tokens.length), p.stop, q.diagnostics⟩ := by
  rw [← h.stop_eq, ← List.suffix_iff_eq_drop.1 h.suffix]

theorem Ends.length_tokens (h : p.Ends q rest) : q.tokens.length = rest.length + 1 := by
  have hpos := List.length_pos_of_ne_nil h.ne_nil
  rw [← h.tail_eq, List.length_tail]
  omega

/-! Where a reading stopped, the loops go on as it says. -/

theorem recoverTokens_suffix (ts : List Token) : recoverTokens ts <:+ ts := by
  fun_induction recoverTokens ts with
  | case1 t u ts h => exact List.suffix_rfl
  | case2 t u ts h ih => exact ih.trans (List.suffix_cons t _)
  | case3 ts h => exact List.suffix_rfl

theorem Covers.recover (h : p.Covers q) : p.Covers q.recover :=
  ⟨h.stop_eq, (recoverTokens_suffix q.tokens).trans h.suffix⟩

theorem Rests.exists_cons (h : p.Rests q rest) :
    ∃ t, q.tokens = t :: rest ∧ t.kind.isPlain = true := by
  obtain ⟨t, us, htokens⟩ := List.exists_cons_of_ne_nil h.ne_nil
  have hplain := h.isPlain
  have htail := h.tail_eq
  rw [IsPlain, current, htokens] at hplain
  rw [htokens] at htail
  exact ⟨t, htail ▸ htokens, hplain⟩

theorem Stops.covers {halt : Halt} (h : p.Stops q halt) : p.Covers q := by
  cases halt with
  | on ts => exact h.toCovers
  | before ts => exact h.toCovers

theorem Stops.resume {halt : Halt} (h : p.Stops q halt) :
    p.Stands q.recover.next halt.resume := by
  refine ⟨h.covers.recover.next, (tail_recoverTokens q.tokens).trans ?_⟩
  cases halt with
  | on ts => rw [h.tokens_eq]
  | before ts =>
    obtain ⟨t, htokens, hplain⟩ := h.exists_cons
    rw [htokens, Halt.resume, if_neg]
    · rfl
    · intro ht
      rw [ht] at hplain
      cases hplain

/-- Where a block goes on after a failure: right there, if the parser stands on a closing keyword or
at the end. -/
def afterFailure (q : Parser) : Parser :=
  if q.current.kind.isBlockEnd || q.tokens.isEmpty then q else q.recover.next

theorem diagnostics_afterFailure (q : Parser) : q.afterFailure.diagnostics = q.diagnostics := by
  rw [afterFailure]
  split <;> rfl

theorem Stops.resumeInBlock {halt : Halt} (h : p.Stops q halt) :
    p.Stands q.afterFailure halt.resumeInBlock := by
  rw [afterFailure]
  have hresume := h.resume
  cases halt with
  | on ts =>
    cases ts with
    | nil =>
      rw [if_pos (by simp [h.tokens_eq])]
      exact h
    | cons t ts =>
      rw [h.current_eq, h.tokens_eq, List.isEmpty_cons, Bool.or_false, Halt.resumeInBlock]
      split
      · exact h
      · exact hresume
  | before ts =>
    obtain ⟨t, htokens, hplain⟩ := h.exists_cons
    have hend : q.current.kind.isBlockEnd = false := by
      have hisPlain := h.isPlain
      rw [IsPlain, Kind.isPlain, Bool.and_eq_true, Bool.and_eq_true, Bool.not_eq_true'] at hisPlain
      exact hisPlain.1.2
    rw [hend, htokens, if_neg (by simp)]
    exact hresume

end

end Parser

namespace Session

variable {α β : Type}

/-! Single steps. -/

theorem bind_of_some {m : Reading α} {f : α → Reading β} {s q : Session} {a : α}
    (h : m s = some (some a, q)) : (m >>= f) s = f a q := by
  change (m s).bind _ = _
  rw [h]
  rfl

theorem bind_of_none {m : Reading α} {f : α → Reading β} {s q : Session}
    (h : m s = some (none, q)) : (m >>= f) s = some (none, q) := by
  change (m s).bind _ = _
  rw [h]
  rfl

theorem current_bind (f : Token → Reading α) (s : Session) :
    (liftM current >>= f) s = f s.parser.current s := rfl

theorem ask_of_found {check : Parser → Bool × Parser} {s : Session} {q : Parser}
    (h : check s.parser = (true, q)) : ask check s = some (some q.current, ⟨q, s.calls⟩) := by
  rw [ask, h]
  rfl

theorem ask_of_not_found {check : Parser → Bool × Parser} {s : Session} {q : Parser}
    (h : check s.parser = (false, q)) : ask check s = some (none, ⟨q, s.calls⟩) := by
  rw [ask, h]
  rfl

/-! Sessions and traced runs. -/

/-- From `s` to `q` the session has called for statements at `places`, of which `dropped` were
dropped, and has reported `log`. -/
structure Advances (s q : Session) (places : List (List Token)) (dropped : Nat)
    (log : List Diagnostic) : Prop where
  calls : ∃ new, q.calls = s.calls ++ new ∧ new.map Call.place = places ∧
    new.countP Call.isDropped = dropped
  reports : q.parser.diagnostics = s.parser.diagnostics ++ log

theorem advances_of_eq {s q : Session} (hcalls : q.calls = s.calls)
    (hreports : q.parser.diagnostics = s.parser.diagnostics) : s.Advances q [] 0 [] :=
  ⟨⟨[], by rw [hcalls, List.append_nil], rfl, rfl⟩, by rw [hreports, List.append_nil]⟩

theorem advances_report (s : Session) (problem : Problem) (position : Position) :
    s.Advances { s with parser := s.parser.report problem position } [] 0 [⟨problem, position⟩] :=
  ⟨⟨[], (List.append_nil _).symm, rfl, rfl⟩, rfl⟩

theorem Advances.moved {s q : Session} {places : List (List Token)} {n : Nat}
    {log : List Diagnostic} (h : s.Advances q places n log) {r : Parser}
    (hr : r.diagnostics = q.parser.diagnostics) : s.Advances ⟨r, q.calls⟩ places n log :=
  ⟨h.calls, hr.trans h.reports⟩

theorem Advances.length_lt {s q : Session} {places : List (List Token)} {n : Nat}
    {log : List Diagnostic} {d : Diagnostic} (h : s.Advances q places n (log ++ [d])) :
    s.parser.diagnostics.length < q.parser.diagnostics.length := by
  rw [h.reports, List.length_append, List.length_append]
  exact Nat.lt_add_of_pos_right (Nat.succ_pos _)

theorem Advances.trans {s q r : Session} {places places' : List (List Token)} {n n' : Nat}
    {log log' : List Diagnostic} (h : s.Advances q places n log)
    (h' : q.Advances r places' n' log') :
    s.Advances r (places ++ places') (n + n') (log ++ log') := by
  obtain ⟨new, hcalls, hplaces, hdropped⟩ := h.calls
  obtain ⟨new', hcalls', hplaces', hdropped'⟩ := h'.calls
  constructor
  · refine ⟨new ++ new', ?_, ?_, ?_⟩
    · rw [hcalls', hcalls, List.append_assoc]
    · rw [List.map_append, hplaces, hplaces']
    · rw [List.countP_append, hdropped, hdropped']
  · rw [h'.reports, h.reports, List.append_assoc]

/-- From the session `s` the reading `m` goes as the run `x` says. Where it succeeds the parser is
in a place that `arrives` allows. As many statements have been dropped as the log of the run has
diagnostics. -/
inductive Follows (p : Parser) (arrives : Parser → List Token → Prop) (m : Reading α)
    (s : Session) (x : Traced α) : Prop
  | done {a : α} {rest : List Token} {q : Session} (apply : m s = some (some a, q))
    (outcome : x.run.outcome = .done a rest) (place : arrives q.parser rest)
    (advance : s.Advances q (x.attempts p.stop) x.run.log.length x.run.log)
  | failed {d : Diagnostic} {halt : Halt} {q : Session} (apply : m s = some (none, q))
    (outcome : x.run.outcome = .failed d halt) (place : p.Stops q.parser halt)
    (advance : s.Advances q (x.attempts p.stop) x.run.log.length (x.run.log ++ [d]))

namespace Follows

variable {p : Parser} {arrives arrives' : Parser → List Token → Prop} {m m' : Reading α}
  {s s' : Session} {x y : Traced α}

theorem after {places : List (List Token)} (log : List Diagnostic)
    (h : Follows p arrives m' s' y) (happly : m s = m' s')
    (hadvance : s.Advances s' places log.length log) (hrun : x.run = y.run.after log)
    (hattempts : x.attempts p.stop = places ++ y.attempts p.stop) : Follows p arrives m s x := by
  have hlength : x.run.log.length = log.length + y.run.log.length := by
    rw [hrun, Run.after, List.length_append]
  have houtcome : x.run.outcome = y.run.outcome := by rw [hrun, Run.after]
  have hlog : x.run.log = log ++ y.run.log := by rw [hrun, Run.after]
  cases h with
  | done apply outcome place advance =>
    refine .done (happly.trans apply) (houtcome.trans outcome) place ?_
    rw [hattempts, hlength, hlog]
    exact hadvance.trans advance
  | failed apply outcome place advance =>
    refine .failed (happly.trans apply) (houtcome.trans outcome) place ?_
    rw [hattempts, hlength, hlog, List.append_assoc]
    exact hadvance.trans advance

theorem step (h : Follows p arrives m' s' x) (happly : m s = m' s') (hcalls : s'.calls = s.calls)
    (hreports : s'.parser.diagnostics = s.parser.diagnostics) : Follows p arrives m s x :=
  h.after [] happly (advances_of_eq hcalls hreports) rfl rfl

theorem current {f : Token → Reading α} (h : Follows p arrives (f s.parser.current) s x) :
    Follows p arrives (liftM Session.current >>= f) s x := h.step rfl rfl rfl

theorem peek {f : Token → Reading α} (h : Follows p arrives (f s.parser.peek) s x) :
    Follows p arrives (liftM Session.peek >>= f) s x := h.step rfl rfl rfl

theorem endsNext {f : Bool → Reading α}
    (h : Follows p arrives (f (Parse.endsStmt s.parser.tokens.tail)) s x) :
    Follows p arrives (liftM Session.endsNext >>= f) s x := h.step rfl rfl rfl

theorem next {f : Unit → Reading α}
    (h : Follows p arrives (f ()) { s with parser := s.parser.next } x) :
    Follows p arrives (liftM Session.next >>= f) s x := h.step rfl rfl rfl

theorem call {v : Visit} {r : Run α} (h : Follows p arrives m s x) (hrun : x.run = r)
    (hcalls : v.calls p.stop = x.calls) (hplace : v.place = none) :
    Follows p arrives m s ⟨[v], r⟩ := by
  refine h.after [] rfl (advances_of_eq rfl rfl) ?_ ?_
  · rw [hrun, Run.after_nil]
  · exact Traced.attempts_call p.stop hcalls hplace r

theorem pass {q : Session} {r : Parser} {t : Token} {us : List Token} {ws : List Visit} {v : Visit}
    {run : Run α} (log : List Diagnostic) (h : Follows p arrives m' ⟨r, q.calls⟩ ⟨[v], run⟩)
    (happly : m s = m' ⟨r, q.calls⟩) (hr : r.diagnostics = q.parser.diagnostics)
    (hadvance : s.Advances q ((t :: us) :: (Visit.statement t us).attempts p.stop) log.length log)
    (hws : ∀ w ∈ ws, ∃ ts, w = .recovery ts) :
    Follows p arrives m s ⟨.statement t us :: (ws ++ [v]), run.after log⟩ :=
  h.after log happly (hadvance.moved hr) rfl (Traced.attempts_pass p.stop t us v _ hws _)

theorem ends (h : Follows p p.Rests m s x) : Follows p p.Ends m s x := by
  cases h with
  | done apply outcome place advance => exact .done apply outcome place.toEnds advance
  | failed apply outcome place advance => exact .failed apply outcome place advance

/-- One reading goes as its run says, and what comes behind it as the run does that goes on. -/
theorem bind {f : α → Reading β} {g : α → List Token → Traced β} (h : Follows p arrives' m s x)
    (hf : ∀ a rest q, x.run.outcome = .done a rest → arrives' q.parser rest →
      Follows p arrives (f a) q (g a rest)) :
    Follows p arrives (m >>= f) s (x.bind g) := by
  cases h with
  | done apply outcome place advance =>
    refine (hf _ _ _ outcome place).after _ (bind_of_some apply) advance ?_ ?_
    · rw [Traced.run_bind, Run.bind, outcome]
    · exact Traced.attempts_bind_of_done p.stop outcome
  | @failed d halt q apply outcome place advance =>
    have hrun : (x.bind g).run = ⟨x.run.log, .failed d halt⟩ := by
      rw [Traced.run_bind, Run.bind, outcome]
    refine .failed (bind_of_none apply) (congrArg Run.outcome hrun) place ?_
    rw [Traced.attempts_bind_of_failed p.stop outcome, hrun]
    exact advance

theorem map (h : Follows p arrives m s x) (f : α → β) :
    Follows p arrives (m >>= fun a => Pure.pure (f a)) s (x.map f) := by
  cases h with
  | done apply outcome place advance =>
    refine .done (bind_of_some apply) ?_ place advance
    rw [Traced.run_map, Run.map, outcome]
    rfl
  | failed apply outcome place advance =>
    refine .failed (bind_of_none apply) ?_ place advance
    rw [Traced.run_map, Run.map, outcome]
    rfl

theorem map_of_failed {f : α → Reading β} {d : Diagnostic} {halt : Halt}
    (h : Follows p arrives' m s x) (hx : x.run.outcome = .failed d halt) (g : α → β) :
    Follows p arrives (m >>= f) s (x.map g) := by
  cases h with
  | done apply outcome place advance =>
    rw [hx] at outcome
    cases outcome
  | failed apply outcome place advance =>
    refine .failed (bind_of_none apply) ?_ place advance
    rw [Traced.run_map, Run.map, outcome]
    rfl

theorem pure {a : α} {rest : List Token} (h : arrives s.parser rest) :
    Follows p arrives (Pure.pure a) s (Traced.quiet (.done a rest)) :=
  .done rfl rfl h (advances_of_eq rfl rfl)

theorem report {problem : Problem} {position : Position} {halt : Halt}
    (happly : m s = some (none, { s with parser := s.parser.report problem position }))
    (h : p.Stops s.parser halt) :
    Follows p arrives m s (Traced.quiet (.failed ⟨problem, position⟩ halt)) := by
  refine .failed happly rfl ?_ (s.advances_report problem position)
  cases halt with
  | on rest => exact ⟨⟨h.stop_eq, h.suffix⟩, h.tokens_eq⟩
  | before rest => exact ⟨⟨⟨h.stop_eq, h.suffix⟩, h.ne_nil, h.tail_eq⟩, h.isPlain⟩

theorem expectPeek {kind : Kind} {rest : List Token} (h : p.Rests s.parser rest)
    (hkind : kind.isPlain = true) (problem : Token → Problem) :
    Follows p p.Rests (Session.expectPeek kind problem) s
      (Traced.required p.stop kind problem rest) := by
  have hpeek := h.peek_eq
  have hmissing : s.parser.peek.kind ≠ kind → Follows p p.Rests (Session.expectPeek kind problem) s
      (Traced.quiet (.failed ⟨problem s.parser.peek, s.parser.peek.start⟩ (.before rest))) := by
    intro hne
    have hcheck : s.parser.expectPeek kind problem =
        (false, s.parser.report (problem s.parser.peek) s.parser.peek.start) := if_neg hne
    exact report (ask_of_not_found hcheck) h
  rw [hpeek] at hmissing
  cases rest with
  | nil =>
    refine hmissing ?_
    rintro rfl
    cases hkind
  | cons t ts =>
    rw [Traced.required, outcome_expect_cons]
    split
    · next hfound =>
      have hcheck : s.parser.expectPeek kind problem = (true, s.parser.next) :=
        if_pos (hpeek ▸ hfound)
      have hnext : p.Rests s.parser.next ts := h.next.rests (hfound ▸ hkind)
      refine .done (ask_of_found hcheck) ?_ hnext (advances_of_eq rfl rfl)
      rw [h.next.current_eq]
      rfl
    · next hne => exact hmissing hne

theorem closing {kind : Kind} {ts : List Token} (h : p.Stands s.parser ts)
    (hkind : kind ≠ .endOfInput) (form : Form) (what : String) :
    Follows p p.Ends (Session.closing form kind what) s
      (Traced.closing p.stop form kind what ts) := by
  have hmissing (problem : Token → Problem) (hne : s.parser.current.kind ≠ kind) :
      Follows p p.Ends (Session.expectCurrent kind problem) s (Traced.quiet
        (.failed ⟨problem s.parser.current, s.parser.current.start⟩ (.on ts))) := by
    have hcheck : s.parser.expectCurrent kind problem =
        (false, s.parser.reportCurrent (problem s.parser.current)) := if_neg hne
    exact report (ask_of_not_found hcheck) h
  rw [Traced.closing, Parse.closing]
  cases ts with
  | nil =>
    rw [h.toCovers.current_eq, h.tokens_eq] at hmissing
    exact hmissing _ hkind.symm
  | cons t ts =>
    rw [h.current_eq] at hmissing
    rw [outcome_expectHere_cons]
    split
    · next ht =>
      have hfound (problem : Token → Problem) :
          Session.expectCurrent kind problem s = some (some t, s) := by
        have hcheck : s.parser.expectCurrent kind problem = (true, s.parser) :=
          if_pos (h.current_eq ▸ ht)
        rw [Session.expectCurrent, ask_of_found hcheck, h.current_eq]
      exact .done (hfound _) rfl h.ends (advances_of_eq rfl rfl)
    · next hne => exact hmissing _ hne

end Follows

end Session

end LuaSyntax

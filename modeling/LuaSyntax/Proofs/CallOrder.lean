import LuaSyntax.Proofs.Calls

/-! The visits of a run follow one another along the tokens: each begins where the one before it
ended, or behind that. -/

namespace LuaSyntax

namespace Visit

variable {stop : Position}

/-- Visits in their order, each beginning where the one before it ended or later. All begin among
the tokens `us`, none is a statement, and `rest` is left after the last. -/
structure Between (stop : Position) (us : List Token) (vs : List Visit) (rest : List Token) :
    Prop where
  ordered : vs.Pairwise fun v w => w.remaining <:+ v.finish stop
  begins : ∀ w ∈ vs, w.remaining <:+ us
  ends : ∀ w ∈ vs, rest <:+ w.finish stop
  simple : ∀ w ∈ vs, w.routine ≠ .statement

namespace Between

variable {us us' mid rest : List Token} {vs ws : List Visit}

theorem nil : Between stop us [] rest :=
  ⟨.nil, List.forall_mem_nil _, List.forall_mem_nil _, List.forall_mem_nil _⟩

theorem single {v : Visit} (hbegins : v.remaining <:+ us) (hends : rest <:+ v.finish stop)
    (hv : v.routine ≠ .statement) : Between stop us [v] rest := by
  refine ⟨List.pairwise_singleton _ v, ?_, ?_, ?_⟩ <;> intro w hw <;>
    obtain rfl := List.mem_singleton.1 hw
  · exact hbegins
  · exact hends
  · exact hv

theorem mono (h : Between stop us vs rest) (hus : us <:+ us') : Between stop us' vs rest :=
  { h with begins := fun w hw => (h.begins w hw).trans hus }

theorem append (hv : Between stop us vs mid) (hw : Between stop mid ws rest) (hmid : mid <:+ us)
    (hrest : rest <:+ mid) : Between stop us (vs ++ ws) rest where
  ordered := List.pairwise_append.2
    ⟨hv.ordered, hw.ordered, fun v h w h' => (hw.begins w h').trans (hv.ends v h)⟩
  begins := by
    intro w hmem
    rcases List.mem_append.1 hmem with h | h
    · exact hv.begins w h
    · exact (hw.begins w h).trans hmid
  ends := by
    intro w hmem
    rcases List.mem_append.1 hmem with h | h
    · exact hrest.trans (hv.ends w h)
    · exact hw.ends w h
  simple := by
    intro w hmem
    rcases List.mem_append.1 hmem with h | h
    · exact hv.simple w h
    · exact hw.simple w h

end Between

end Visit

theorem Attempt.rest_suffix {α : Type} {lead us : List Token} (a : Attempt α lead us) :
    a.outcome.rest <:+ lead ++ us := by
  cases a with
  | done v rest h => exact h.trans (List.suffix_append lead us)
  | failed d halt h =>
    cases halt with
    | on rest => exact h
    | before rest => exact List.IsSuffix.trans h (List.suffix_append lead us)

namespace Traced

variable {stop : Position} {α β : Type} {lead us us' : List Token}

structure Between (stop : Position) (lead us : List Token) (x : Traced α) : Prop where
  calls : Visit.Between stop us x.calls x.run.rest
  ends : x.run.rest <:+ lead ++ us
  taken : ∀ a rest, x.run.outcome = .done a rest → rest <:+ us

theorem between_quiet (a : Attempt α lead us) : (quiet a.outcome).Between stop lead us where
  calls := .nil
  ends := a.rest_suffix
  taken _ _ h := Attempt.suffix_of_outcome h

theorem between_single {v : Visit} (a : Logged α [] us) (hbegins : v.remaining = us)
    (hends : v.finish stop = a.run.rest) (hv : v.routine ≠ .statement) :
    (⟨[v], a.run⟩ : Traced α).Between stop [] us where
  calls := .single (hbegins ▸ List.suffix_rfl) (hends ▸ List.suffix_rfl) hv
  ends := a.attempt.rest_suffix
  taken _ _ h := Attempt.suffix_of_outcome h

theorem Between.map {x : Traced α} (hx : x.Between stop lead us) (f : α → β) :
    (x.map f).Between stop lead us := by
  obtain ⟨calls, log, o⟩ := x
  cases o with
  | done a rest =>
    refine ⟨hx.calls, hx.ends, ?_⟩
    rintro _ _ ⟨⟩
    exact hx.taken a rest rfl
  | failed d halt => exact ⟨hx.calls, hx.ends, nofun⟩

theorem Between.bind {x : Traced α} {f : α → List Token → Traced β}
    (hx : x.Between stop lead us) (hf : ∀ a rest, (f a rest).Between stop [] rest) :
    (x.bind f).Between stop lead us := by
  obtain ⟨calls, log, o⟩ := x
  cases o with
  | done a rest =>
    have hrest : rest <:+ us := hx.taken a rest rfl
    have hends : (f a rest).run.rest <:+ rest := (hf a rest).ends
    refine ⟨hx.calls.append (hf a rest).calls hrest hends, ?_, ?_⟩
    · exact (hends.trans hrest).trans (List.suffix_append lead us)
    · intro b ts h
      exact ((hf a rest).taken b ts h).trans hrest
  | failed d halt => exact ⟨hx.calls, hx.ends, nofun⟩

theorem Between.mono {x : Traced α} (hx : x.Between stop [] us) (hus : us <:+ us') :
    x.Between stop lead us' where
  calls := hx.calls.mono hus
  ends := (List.IsSuffix.trans hx.ends hus).trans (List.suffix_append lead us')
  taken a rest h := (hx.taken a rest h).trans hus

theorem Between.past {x : Traced α} (hx : x.Between stop [] us) (t : Token) :
    x.Between stop [] (t :: us) := hx.mono (List.suffix_cons t us)

theorem Between.taking {x : Traced α} (hx : x.Between stop [] us) (t : Token) :
    x.Between stop [t] us := hx.mono List.suffix_rfl

/-! Every reader makes its calls in order. -/

variable (stop)

theorem between_expr (level : Precedence) (ts : List Token) :
    (expr stop level ts).Between stop [] ts :=
  between_single (Parse.expr stop level ts).logged rfl rfl nofun

theorem between_extension (level : Precedence) (left : Expr Token) (ts : List Token) :
    (extension stop level left ts).Between stop [] ts :=
  between_single (Parse.extend stop level left ts).logged rfl rfl nofun

theorem between_argument (us : List Token) : (argument stop us).Between stop [] us :=
  between_single (Parse.moreArguments stop us).logged rfl rfl nofun

theorem between_parameter (us : List Token) : (parameter stop us).Between stop [] us :=
  between_single (Parse.moreParameters stop us).logged rfl rfl nofun

theorem between_pass (construct terminator : Kind) (ts : List Token) :
    (pass stop construct terminator ts).Between stop [] ts :=
  between_single (Parse.statements stop construct terminator ts) rfl rfl nofun

theorem between_block (construct terminator : Kind) (opener : Token) (us : List Token) :
    (block stop construct terminator opener us).Between stop [] us :=
  between_single (Parse.block stop construct terminator opener us) rfl rfl nofun

theorem between_branch (t : Token) (us : List Token) : (branch stop t us).Between stop [] us :=
  between_single (Parse.condStmt stop t us) rfl rfl nofun

theorem between_required (kind : Kind) (problem : Token → Problem) (ts : List Token) :
    (required stop kind problem ts).Between stop [] ts := between_quiet _

theorem between_closing (form : Form) (kind : Kind) (what : String) (ts : List Token) :
    (closing stop form kind what ts).Between stop [] ts := between_quiet _

theorem between_ofOperand (t : Token) (us : List Token) :
    (ofOperand stop t us).Between stop [t] us := by
  unfold ofOperand
  split
  · exact between_quiet _
  split
  · exact ((between_expr stop _ us).map _).taking t
  split
  · exact ((between_expr stop _ us).bind fun _ vs =>
      (between_required stop _ _ vs).map _).taking t
  · exact between_quiet (Attempt.ofToken t us (.error _))

theorem between_ofExprFrom (level : Precedence) (t : Token) (us : List Token) :
    (ofExprFrom stop level t us).Between stop [t] us :=
  (between_ofOperand stop t us).bind fun left vs => between_extension stop level left vs

theorem between_arguments (us : List Token) :
    ((expr stop .lowest us).bind fun e rest => (argument stop rest).map (e :: ·)).Between stop []
      us :=
  (between_expr stop .lowest us).bind fun _ rest => (between_argument stop rest).map _

theorem between_ofArguments (us : List Token) : (ofArguments stop us).Between stop [] us := by
  cases us with
  | nil => exact (between_expr stop .lowest []).map _
  | cons t vs =>
    rw [ofArguments]
    split
    · exact between_quiet (.done [] vs (List.suffix_cons t vs))
    · exact between_arguments stop (t :: vs)

theorem between_ofArgument (t : Token) (vs : List Token) :
    Visit.Between stop vs (ofArgument stop (t :: vs)).calls (ofArgument stop (t :: vs)).run.rest :=
  by
  rw [ofArgument]
  split
  · exact (between_arguments stop vs).calls
  · exact .nil

theorem between_ofExtendOnce (left : Expr Token) (op : Token) (us : List Token) :
    (ofExtendOnce stop left op us).Between stop [op] us := by
  unfold ofExtendOnce ofCall
  split
  · split
    · exact ((between_ofArguments stop us).map _).taking op
    · exact between_quiet (Attempt.ofToken op us (.error _))
  · exact ((between_expr stop _ us).map _).taking op

theorem between_ofExtension (level : Precedence) (left : Expr Token) (op : Token)
    (us : List Token) :
    Visit.Between stop us (ofExtension stop level left (op :: us)).calls
      (ofExtension stop level left (op :: us)).run.rest := by
  rw [ofExtension]
  split
  · exact ((between_ofExtendOnce stop left op us).bind fun e rest =>
      between_extension stop level e rest).calls
  · exact .nil

theorem between_ofAssignment (t : Token) (name : Name Token) (isLocal : Bool) (us : List Token) :
    (ofAssignment stop t name isLocal us).Between stop [] us := (between_expr stop .lowest us).map _

theorem between_ofParameters (us : List Token) : (ofParameters stop us).Between stop [] us := by
  cases us with
  | nil => exact (between_required stop _ _ []).map _
  | cons t vs =>
    rw [ofParameters]
    split
    · exact between_quiet (.done _ vs (List.suffix_cons t vs))
    · exact (between_required stop _ _ (t :: vs)).bind fun name ws =>
        (between_parameter stop ws).map _

theorem between_ofParameter (t : Token) (vs : List Token) :
    Visit.Between stop vs (ofParameter stop (t :: vs)).calls
      (ofParameter stop (t :: vs)).run.rest := by
  rw [ofParameter]
  split
  · exact ((between_required stop _ _ vs).bind fun name ws =>
      (between_parameter stop ws).map _).calls
  · exact .nil

theorem between_ofStep (us : List Token) : (ofStep stop us).Between stop [] us := by
  cases us with
  | nil => exact between_quiet (.pure _ [])
  | cons t vs =>
    rw [ofStep]
    split
    · exact (between_expr stop .lowest vs).past t
    · exact between_quiet (.pure _ (t :: vs))

theorem between_ofForHeader (us : List Token) : (ofForHeader stop us).Between stop [] us := by
  refine (between_required stop _ _ us).bind fun name vs => ?_
  refine (between_required stop _ _ vs).bind fun _ vs => ?_
  refine (between_ofAssignment stop _ _ _ vs).bind fun init vs => ?_
  refine (between_required stop _ _ vs).bind fun _ vs => ?_
  refine (between_expr stop .lowest vs).bind fun limit vs => ?_
  refine (between_ofStep stop vs).bind fun step vs => ?_
  exact (between_required stop _ _ vs).map _

theorem between_ofFunctionHeader (us : List Token) :
    (ofFunctionHeader stop us).Between stop [] us := by
  refine (between_required stop _ _ us).bind fun name vs => ?_
  refine (between_required stop _ _ vs).bind fun _ vs => ?_
  exact (between_ofParameters stop vs).map _

theorem between_body {γ : Type} (construct terminator : Kind) (opener : Token) (us : List Token)
    (form : Form) (kind : Kind) (what : String) (f : Block Token (Stmt Token) → Token → γ) :
    ((block stop construct terminator opener us).bind fun b vs =>
      (closing stop form kind what vs).map (f b)).Between stop [] us :=
  (between_block stop construct terminator opener us).bind fun _ vs =>
    (between_closing stop form kind what vs).map _

theorem between_ofAlternative (ts : List Token) : (ofAlternative stop ts).Between stop [] ts := by
  cases ts with
  | nil => exact (between_closing stop _ _ _ []).map _
  | cons t us =>
    rw [ofAlternative]
    split
    · exact ((between_branch stop t us).map _).past t
    split
    · exact (between_body stop _ _ t us _ _ _ _).past t
    · exact (between_closing stop _ _ _ (t :: us)).map _

theorem between_ofConsequence (t : Token) (condition : Expr Token) (vs : List Token) :
    (ofConsequence stop t condition vs).Between stop [] vs := by
  refine (between_required stop _ _ vs).bind fun opener ws => ?_
  refine (between_block stop _ _ opener ws).bind fun consequence xs => ?_
  exact (between_ofAlternative stop xs).map _

theorem between_ofBranch (t : Token) (us : List Token) :
    (ofBranch stop t us).Between stop [] us :=
  (between_expr stop .lowest us).bind fun condition vs => between_ofConsequence stop t condition vs

theorem between_ofLocalStmt (t : Token) (us : List Token) :
    (ofLocalStmt stop t us).Between stop [] us := by
  refine (between_required stop _ _ us).bind fun name vs => ?_
  refine (between_required stop _ _ vs).bind fun _ ws => ?_
  exact (between_ofAssignment stop _ _ _ ws).map _

theorem between_ofReturnStmt (t : Token) (us : List Token) :
    (ofReturnStmt stop t us).Between stop [] us := by
  unfold ofReturnStmt
  split
  · exact between_quiet (.pure _ us)
  · exact (between_expr stop .lowest us).bind fun value vs => (between_quiet _).map _

theorem between_ofWhileStmt (t : Token) (us : List Token) :
    (ofWhileStmt stop t us).Between stop [] us := by
  refine (between_expr stop .lowest us).bind fun condition vs => ?_
  refine (between_required stop _ _ vs).bind fun opener ws => ?_
  exact between_body stop _ _ opener ws _ _ _ _

theorem between_ofForStmt (t : Token) (us : List Token) :
    (ofForStmt stop t us).Between stop [] us :=
  (between_ofForHeader stop us).bind fun header vs =>
    between_body stop _ _ header.opener vs _ _ _ _

theorem between_ofRepeatStmt (t : Token) (us : List Token) :
    (ofRepeatStmt stop t us).Between stop [] us := by
  refine (between_block stop _ _ t us).bind fun body vs => ?_
  refine (between_closing stop _ _ _ vs).bind fun _ ws => ?_
  exact (between_expr stop .lowest ws).map _

theorem between_ofFunctionStmt (t : Token) (us : List Token) :
    (ofFunctionStmt stop t us).Between stop [] us :=
  (between_ofFunctionHeader stop us).bind fun header vs =>
    between_body stop _ _ header.opener vs _ _ _ _

theorem ofStmt_cases (t : Token) (us : List Token) :
    ofStmt stop t us = ofExprStmt stop t us ∨ (ofStmt stop t us).Between stop [] us := by
  unfold ofStmt
  split
  · -- A name begins a bare expression unless `=` or a parenthesis follows.
    cases us with
    | nil => exact .inl rfl
    | cons u vs =>
      rw [ofNameStmt]
      split
      · exact .inr (((between_ofAssignment stop _ _ _ vs).map _).past u)
      split
      · exact .inr (((between_ofArguments stop vs).map _).past u)
      · exact .inl rfl
  · exact .inr (between_ofLocalStmt stop t us)
  · exact .inr (between_ofReturnStmt stop t us)
  · exact .inr (between_branch stop t us)
  · exact .inr (between_ofWhileStmt stop t us)
  · exact .inr (between_ofForStmt stop t us)
  · exact .inr (between_ofRepeatStmt stop t us)
  · exact .inr (between_ofFunctionStmt stop t us)
  · exact .inl rfl

end Traced

namespace Visit

variable {stop : Position}

theorem Between.of_run {α : Type} {x : Traced α} {r : Run α} {us : List Token}
    (h : Between stop us x.calls x.run.rest) (hrun : x.run = r) :
    Between stop us x.calls r.rest := hrun ▸ h

variable (stop)

theorem leaf_cases {v : Visit} (hv : v.routine.rank = 0) :
    v.calls stop = [] ∨
      ∃ t us, v.remaining = t :: us ∧ Between stop us (v.calls stop) (v.finish stop) := by
  cases v with
  | expr level ts =>
    cases ts with
    | nil => exact .inl rfl
    | cons t us =>
      exact .inr ⟨t, us, rfl, .of_run (Traced.between_ofExprFrom stop level t us).calls
        (Traced.run_ofExpr stop level (t :: us))⟩
  | extension level left ts =>
    cases ts with
    | nil => exact .inl rfl
    | cons op us =>
      exact .inr ⟨op, us, rfl, .of_run (Traced.between_ofExtension stop level left op us)
        (Traced.run_ofExtension stop level left (op :: us))⟩
  | argument us =>
    cases us with
    | nil => exact .inl rfl
    | cons t vs =>
      exact .inr ⟨t, vs, rfl, .of_run (Traced.between_ofArgument stop t vs)
        (Traced.run_ofArgument stop (t :: vs))⟩
  | parameter us =>
    cases us with
    | nil => exact .inl rfl
    | cons t vs =>
      exact .inr ⟨t, vs, rfl, .of_run (Traced.between_ofParameter stop t vs)
        (Traced.run_ofParameter stop (t :: vs))⟩
  | recovery ts =>
    cases ts with
    | nil => exact .inl rfl
    | cons u us =>
      rw [calls]
      split
      · exact .inl rfl
      · next hu =>
        refine .inr ⟨u, us, rfl, .single List.suffix_rfl ?_ nofun⟩
        rw [finish, finish, Halt.skipLine, List.dropWhile_cons_of_pos (by simpa using hu)]
        exact List.suffix_rfl
  | _ => cases hv

/-- Apart from the loops, a visit makes its calls in order and calls no statement. -/
theorem between_calls {v : Visit} (hloop : v.routine.rank ≠ 2) :
    Between stop v.remaining (v.calls stop) (v.finish stop) := by
  have hleaf (hv : v.routine.rank = 0) :
      Between stop v.remaining (v.calls stop) (v.finish stop) := by
    rcases leaf_cases stop hv with hnil | ⟨t, us, hremaining, hcalls⟩
    · rw [hnil]
      exact .nil
    · rw [hremaining]
      exact hcalls.mono (List.suffix_cons t us)
  cases v with
  | program ts => exact absurd rfl hloop
  | pass construct terminator ts => exact absurd rfl hloop
  | statement t us =>
    rw [calls, finish]
    split
    · exact .nil
    · -- Only a bare expression is called from the first token of the statement on.
      refine .of_run ?_ (Traced.run_ofStmt stop t us)
      rcases Traced.ofStmt_cases stop t us with hexpr | hbetween
      · rw [hexpr]
        exact ((Traced.between_expr stop .lowest (t :: us)).map _).calls
      · exact hbetween.calls.mono (List.suffix_cons t us)
  | branch t us =>
    exact .of_run (Traced.between_ofBranch stop t us).calls (Traced.run_ofBranch stop t us)
  | block construct terminator opener us =>
    exact .of_run ((Traced.between_pass stop construct terminator us).map _).calls
      (Traced.run_ofBlock stop construct terminator opener us)
  | _ => exact hleaf rfl

end Visit

/-! The loops over a program and over a block. -/

def Halt.ahead : Halt → List Token
  | on ts => ts.tail
  | before ts => ts

theorem Halt.ahead_suffix_rest (halt : Halt) : halt.ahead <:+ halt.rest := by
  cases halt with
  | on ts => exact List.tail_suffix ts
  | before ts => exact List.suffix_rfl

theorem Halt.ahead_suffix {halt : Halt} {t : Token} {us : List Token}
    (h : halt.Within [t] us) : halt.ahead <:+ us := by
  cases halt with
  | on ts =>
    rcases List.suffix_cons_iff.1 h with rfl | hsuffix
    · exact List.suffix_rfl
    · exact (List.tail_suffix ts).trans hsuffix
  | before ts => exact h

theorem Halt.resumeInBlock_suffix_tail {halt : Halt} {t : Token} {us : List Token}
    (h : halt.Within [t] us) (ht : t.kind.isBlockEnd = false) : halt.resumeInBlock <:+ us := by
  rcases List.suffix_cons_iff.1 (resumeInBlock_suffix h) with heq | hsuffix
  · have hlt := length_resumeInBlock_lt h ht
    rw [heq] at hlt
    exact absurd hlt (Nat.lt_irrefl _)
  · exact hsuffix

namespace Visit

variable {stop : Position}

theorem between_recoveries (halt : Halt) :
    Between stop halt.ahead halt.recoveries halt.resume := by
  unfold Halt.recoveries
  split
  · exact .nil
  · next t ts =>
    split
    · exact .nil
    · next ht =>
      refine .single List.suffix_rfl ?_ nofun
      rw [Halt.resume, if_neg ht]
      exact List.suffix_rfl
  · next ts => exact .single List.suffix_rfl List.suffix_rfl nofun

theorem between_recoveriesInBlock (halt : Halt) :
    Between stop halt.ahead halt.recoveriesInBlock halt.resumeInBlock := by
  match halt with
  | .on [] => exact .nil
  | .on (t :: ts) =>
    rw [Halt.recoveriesInBlock, Halt.resumeInBlock]
    split
    · exact .nil
    · exact between_recoveries (.on (t :: ts))
  | .before ts => exact between_recoveries (.before ts)

/-- A pass that visits the statement at hand and then, behind it, the visits `ws`. -/
structure Loop (stop : Position) (v : Visit) (t : Token) (us : List Token) (ws : List Visit) :
    Prop where
  remaining : v.remaining = t :: us
  calls : v.calls stop = statement t us :: ws
  inside : Between stop us ws (v.finish stop)
  behind : Between stop ((statement t us).finish stop) ws (v.finish stop)
  finish : v.finish stop <:+ us
  ends : v.finish stop <:+ (statement t us).finish stop

theorem finish_of_separator {t : Token} (us : List Token) (hsep : t.kind.isSeparator = true) :
    (statement t us).finish stop = us := if_pos hsep

theorem finish_of_run {t : Token} {us : List Token} {log : List Diagnostic}
    {o : Outcome (Stmt Token)} (hsep : ¬t.kind.isSeparator = true)
    (hrun : (Parse.stmtFrom stop t us).run = ⟨log, o⟩) : (statement t us).finish stop = o.rest := by
  rw [finish, if_neg hsep, hrun]
  rfl

section

variable {v next : Visit} {t : Token} {us vs : List Token} {ws : List Visit}
  (hremaining : v.remaining = t :: us) (hcalls : v.calls stop = statement t us :: (ws ++ [next]))
  (hfinish : v.finish stop = next.finish stop) (hends : next.finish stop <:+ next.remaining)
  (hnext : next.routine ≠ .statement)
include hremaining hcalls hfinish hends hnext

theorem Loop.intro (hws : Between stop vs ws next.remaining) (hus : vs <:+ us)
    (hvs : vs <:+ (statement t us).finish stop) (hinside : next.remaining <:+ us)
    (hbehind : next.remaining <:+ (statement t us).finish stop) :
    Loop stop v t us (ws ++ [next]) := by
  have hlast : Between stop next.remaining [next] (next.finish stop) :=
    .single List.suffix_rfl List.suffix_rfl hnext
  refine ⟨hremaining, hcalls, ?_, ?_, ?_, ?_⟩ <;> rw [hfinish]
  · exact (hws.mono hus).append hlast hinside hends
  · exact (hws.mono hvs).append hlast hbehind hends
  · exact hends.trans hinside
  · exact hends.trans hbehind

theorem Loop.of_failed {log : List Diagnostic} {d : Diagnostic} {halt : Halt}
    (hsep : ¬t.kind.isSeparator = true)
    (hrun : (Parse.stmtFrom stop t us).run = ⟨log, .failed d halt⟩)
    (hws : Between stop halt.ahead ws next.remaining) (hinside : next.remaining <:+ us)
    (hbehind : next.remaining <:+ halt.rest) : Loop stop v t us (ws ++ [next]) := by
  have hfinal := finish_of_run hsep hrun
  have hahead := Halt.ahead_suffix (Logged.within_of_run hrun)
  refine Loop.intro hremaining hcalls hfinish hends hnext hws hahead ?_ hinside ?_ <;> rw [hfinal]
  · exact halt.ahead_suffix_rest
  · exact hbehind

end

section

variable {v next : Visit} {t : Token} {us : List Token}
  (hremaining : v.remaining = t :: us) (hcalls : v.calls stop = [statement t us, next])
  (hfinish : v.finish stop = next.finish stop) (hends : next.finish stop <:+ next.remaining)
  (hnext : next.routine ≠ .statement)
include hremaining hcalls hfinish hends hnext

theorem Loop.of_next (hinside : next.remaining <:+ us)
    (hbehind : next.remaining <:+ (statement t us).finish stop) : Loop stop v t us [next] := by
  have hnone : v.calls stop = statement t us :: ([] ++ [next]) := hcalls
  exact Loop.intro hremaining hnone hfinish hends hnext .nil hinside hbehind hinside hbehind

theorem Loop.of_separator (hsep : t.kind.isSeparator = true) (hus : next.remaining = us) :
    Loop stop v t us [next] := by
  have hinside : next.remaining <:+ us := hus ▸ List.suffix_rfl
  have hbehind : next.remaining <:+ (statement t us).finish stop := by
    rwa [finish_of_separator us hsep]
  exact .of_next hremaining hcalls hfinish hends hnext hinside hbehind

theorem Loop.of_done {log : List Diagnostic} {s : Stmt Token} (hsep : ¬t.kind.isSeparator = true)
    (hrun : (Parse.stmtFrom stop t us).run = ⟨log, .done s next.remaining⟩) :
    Loop stop v t us [next] := by
  have hinside := Logged.suffix_of_run hrun
  have hbehind : next.remaining <:+ (statement t us).finish stop :=
    finish_of_run hsep hrun ▸ List.suffix_rfl
  exact .of_next hremaining hcalls hfinish hends hnext hinside hbehind

end

variable (stop)

theorem program_cases (ts : List Token) :
    (program ts).calls stop = [] ∨ ∃ t us ws, Loop stop (program ts) t us ws := by
  have hnext (vs : List Token) : (program vs).routine ≠ .statement := by rintro ⟨⟩
  cases ts with
  | nil => exact .inl rfl
  | cons t us =>
    refine .inr ⟨t, us, ?_⟩
    by_cases hsep : t.kind.isSeparator = true
    · have hcalls : (program (t :: us)).calls stop = [statement t us, program us] := by
        simp only [calls, Parsed.ofPass, if_pos hsep]
      exact ⟨_, .of_separator rfl hcalls rfl List.nil_suffix (hnext _) hsep rfl⟩
    rcases hrun : (Parse.stmtFrom stop t us).run with ⟨log, ⟨s, rest⟩ | ⟨d, halt⟩⟩
    · have hcalls : (program (t :: us)).calls stop = [statement t us, program rest] := by
        simp only [calls, Parsed.ofPass, if_neg hsep, hrun]
      exact ⟨_, .of_done rfl hcalls rfl List.nil_suffix (hnext _) hsep hrun⟩
    · have hcalls : (program (t :: us)).calls stop =
          statement t us :: (halt.recoveries ++ [program halt.resume]) := by
        simp only [calls, Parsed.ofPass, if_neg hsep, hrun]
      exact ⟨_, .of_failed rfl hcalls rfl List.nil_suffix (hnext _) hsep hrun
        (between_recoveries halt) (Halt.resume_suffix (Logged.within_of_run hrun))
        halt.resume_suffix_rest⟩

theorem pass_cases (construct terminator : Kind) (ts : List Token) :
    (pass construct terminator ts).calls stop = [] ∨
      ∃ t us ws, Loop stop (pass construct terminator ts) t us ws := by
  have hnext (vs : List Token) : (pass construct terminator vs).routine ≠ .statement := by
    rintro ⟨⟩
  have hends (vs : List Token) : (pass construct terminator vs).finish stop <:+ vs :=
    (Parse.statements stop construct terminator vs).attempt.rest_suffix
  have hrest (vs : List Token) : (pass construct terminator vs).finish stop =
      (Traced.ofPass stop construct terminator vs).run.rest := by
    rw [finish, Traced.run_ofPass]
  cases ts with
  | nil => exact .inl rfl
  | cons t us =>
    by_cases hend : t.kind.isBlockEnd = true
    · refine .inl ?_
      simp only [calls, Traced.ofPass, if_pos hend, Traced.quiet]
    refine .inr ⟨t, us, ?_⟩
    by_cases hsep : t.kind.isSeparator = true
    · have hcalls : (pass construct terminator (t :: us)).calls stop =
          [statement t us, pass construct terminator us] := by
        simp only [calls, Traced.ofPass, if_neg hend, if_pos hsep]
      have hfinish : (pass construct terminator (t :: us)).finish stop =
          (pass construct terminator us).finish stop := by
        rw [hrest]
        simp only [Traced.ofPass, if_neg hend, if_pos hsep, finish]
      exact ⟨_, .of_separator rfl hcalls hfinish (hends us) (hnext us) hsep rfl⟩
    rcases hrun : (Parse.stmtFrom stop t us).run with ⟨log, ⟨s, rest⟩ | ⟨d, halt⟩⟩
    · have hcalls : (pass construct terminator (t :: us)).calls stop =
          [statement t us, pass construct terminator rest] := by
        simp only [calls, Traced.ofPass, if_neg hend, if_neg hsep, hrun]
      have hfinish : (pass construct terminator (t :: us)).finish stop =
          (pass construct terminator rest).finish stop := by
        rw [hrest]
        simp only [Traced.ofPass, if_neg hend, if_neg hsep, hrun, Run.rest_after, Run.rest_map,
          finish]
      exact ⟨_, .of_done rfl hcalls hfinish (hends rest) (hnext rest) hsep hrun⟩
    · have hcalls : (pass construct terminator (t :: us)).calls stop =
          statement t us ::
            (halt.recoveriesInBlock ++ [pass construct terminator halt.resumeInBlock]) := by
        simp only [calls, Traced.ofPass, if_neg hend, if_neg hsep, hrun]
      have hfinish : (pass construct terminator (t :: us)).finish stop =
          (pass construct terminator halt.resumeInBlock).finish stop := by
        rw [hrest]
        simp only [Traced.ofPass, if_neg hend, if_neg hsep, hrun, Run.rest_after, finish]
      exact ⟨_, .of_failed rfl hcalls hfinish (hends _) (hnext _) hsep hrun
        (between_recoveriesInBlock halt)
        (Halt.resumeInBlock_suffix_tail (Logged.within_of_run hrun) (Bool.eq_false_iff.2 hend))
        halt.resumeInBlock_suffix_rest⟩

theorem loop_cases {v : Visit} (hloop : v.routine.rank = 2) :
    v.calls stop = [] ∨ ∃ t us ws, Loop stop v t us ws := by
  cases v with
  | program ts => exact program_cases stop ts
  | pass construct terminator ts => exact pass_cases stop construct terminator ts
  | _ => cases hloop

/-- A statement of a block that fails on a keyword that closes a block, or at the end of input,
leaves the next pass there without any recovery, and that pass is the last. -/
theorem calls_of_failed_at_end {t : Token} {us rest : List Token} {log : List Diagnostic}
    {d : Diagnostic} (construct terminator : Kind) (hend : ¬t.kind.isBlockEnd = true)
    (hsep : ¬t.kind.isSeparator = true)
    (hrun : (Parse.stmtFrom stop t us).run = ⟨log, .failed d (.on rest)⟩)
    (hrest : ∀ u ∈ rest.head?, u.kind.isBlockEnd = true) :
    (pass construct terminator (t :: us)).calls stop =
        [statement t us, pass construct terminator rest] ∧
      (pass construct terminator rest).calls stop = [] := by
  have hcalls : (pass construct terminator (t :: us)).calls stop = statement t us ::
      ((Halt.on rest).recoveriesInBlock ++
        [pass construct terminator (Halt.on rest).resumeInBlock]) := by
    simp only [calls, Traced.ofPass, if_neg hend, if_neg hsep, hrun]
  rw [hcalls]
  cases rest with
  | nil => exact ⟨rfl, rfl⟩
  | cons u ts =>
    have hu : u.kind.isBlockEnd = true := hrest u rfl
    constructor
    · rw [Halt.recoveriesInBlock, Halt.resumeInBlock, if_pos hu, if_pos hu]
      rfl
    · simp only [calls, Traced.ofPass, if_pos hu, Traced.quiet]

end Visit

end LuaSyntax

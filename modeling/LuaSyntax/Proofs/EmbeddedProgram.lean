import LuaSyntax.Proofs.Embedding

/-! Blocks and programs as parts of others. A block of the part that is not closed there would
go on in the whole; every other statement, whether it is read or dropped, is the same in both. -/

namespace LuaSyntax

open Outcome

variable {m : Embedding}

namespace Run

variable {α β γ δ : Type}

def diagnostics (r : Run α) : List Diagnostic :=
  match r.outcome with
  | .done _ _ => r.log
  | .failed d _ => r.log ++ [d]

@[simp] theorem diagnostics_map (f : α → β) (r : Run α) :
    (r.map f).diagnostics = r.diagnostics := by
  obtain ⟨log, o⟩ := r
  cases o <;> rfl

@[simp] theorem diagnostics_after (log : List Diagnostic) (r : Run α) :
    (r.after log).diagnostics = log ++ r.diagnostics := by
  obtain ⟨log', o⟩ := r
  cases o <;> simp [diagnostics]

def embed (m : Embedding) (f : α → β) (r : Run α) : Run β :=
  ⟨r.log.map (Diagnostic.move m.place), r.outcome.embed m f⟩

/-- The run comes to the end of the part, where the whole goes on. -/
def Overruns (m : Embedding) (r : Run α) : Prop :=
  ¬m.Closed ∧ ∃ d ∈ r.diagnostics, d.position = m.stop

theorem Overruns.mono {r : Run α} {s : Run β} (h : r.Overruns m)
    (hsub : r.diagnostics ⊆ s.diagnostics) : s.Overruns m := by
  obtain ⟨hopen, d, hd, hstop⟩ := h
  exact ⟨hopen, d, hsub hd, hstop⟩

/-- The part has the run `r`, and unless that overruns the whole has the same, which is `r'`. -/
def Embeds (m : Embedding) (f : α → β) (r : Run α) (r' : Run β) : Prop :=
  (r' = r.embed m f ∧ m.Fits r.outcome.rest) ∨ r.Overruns m

theorem Embeds.map {f : α → β} {r : Run α} {r' : Run β} (h : r.Embeds m f r')
    {g : α → γ} {g' : β → δ} {k : γ → δ} (hg : ∀ a, g' (f a) = k (g a)) :
    (r.map g).Embeds m k (r'.map g') := by
  rcases h with ⟨rfl, hfits⟩ | hover
  · obtain ⟨ho, hfits⟩ := Outcome.Embeds.map (o := r.outcome) ⟨rfl, hfits⟩ hg
    exact .inl ⟨congrArg (Run.mk _) ho, hfits⟩
  · refine .inr (hover.mono ?_)
    rw [diagnostics_map]
    exact List.Subset.refl _

theorem Embeds.after {f : α → β} {r : Run α} {r' : Run β} (h : r.Embeds m f r')
    (log : List Diagnostic) :
    (r.after log).Embeds m f (r'.after (log.map (Diagnostic.move m.place))) := by
  rcases h with ⟨rfl, hfits⟩ | hover
  · refine .inl ⟨?_, hfits⟩
    simp [Run.after, Run.embed]
  · refine .inr (hover.mono ?_)
    rw [diagnostics_after]
    exact List.subset_append_right _ _

theorem Embeds.bind {f : α → β} {r : Run α} {r' : Run β} (h : r.Embeds m f r')
    {g : α → List Token → Run γ} {g' : β → List Token → Run δ} {k : γ → δ}
    (hg : ∀ a ts, r.outcome = .done a ts → m.Fits ts →
      (g a ts).Embeds m k (g' (f a) (m.tokens ts))) :
    (r.bind g).Embeds m k (r'.bind g') := by
  obtain ⟨log, o⟩ := r
  rcases h with ⟨rfl, hfits⟩ | hover
  · cases o with
    | done a ts => exact (hg a ts rfl hfits).after log
    | failed d halt => exact .inl ⟨rfl, hfits⟩
  · refine .inr (hover.mono ?_)
    cases o with
    | done a ts =>
      rw [bind_done, diagnostics_after]
      exact List.subset_append_left _ _
    | failed d halt => exact List.Subset.refl _

end Run

theorem Outcome.Embeds.run {α β : Type} {f : α → β} {o : Outcome α} {o' : Outcome β}
    (h : o.Embeds m f o') : o.run.Embeds m f o'.run :=
  .inl ⟨congrArg (Run.mk []) h.1, h.2⟩

namespace Embedding

theorem Fits.tail_of_ne_nil {t : Token} {ts : List Token} (h : m.Fits (t :: ts)) (hts : ts ≠ []) :
    m.Fits ts := by
  rcases h with h | h
  · exact .inl h
  · obtain ⟨u, us, rfl⟩ := List.exists_cons_of_ne_nil hts
    rw [EndsLine, List.getLast?_cons_cons] at h
    exact .inr h

theorem skipLine_tokens {ts : List Token} (h : m.Fits ts) :
    Halt.skipLine (m.tokens ts) = m.tokens (Halt.skipLine ts) ∧ m.Fits (Halt.skipLine ts) := by
  induction ts with
  | nil =>
    rw [h.tokens_nil]
    exact ⟨h.tokens_nil.symm, h⟩
  | cons t us ih =>
    have hmark : Halt.stopsRecovery (m.mark t) = Halt.stopsRecovery t := rfl
    rw [m.tokens_cons, Halt.skipLine, Halt.skipLine, List.dropWhile_cons, List.dropWhile_cons,
      hmark]
    cases hstop : Halt.stopsRecovery t with
    | true => exact ⟨rfl, h⟩
    | false =>
      refine ih (h.tail ?_)
      intro hk
      simp [Halt.stopsRecovery, hk] at hstop

theorem resume_tokens {halt : Halt} (h : m.Fits halt.rest) :
    (halt.map m.tokens).resume = m.tokens halt.resume ∧
      (halt.resume ≠ [] → m.Fits halt.resume) := by
  match halt, h with
  | .before ts, h =>
    have hts : m.Fits ts := h
    obtain ⟨heq, hfits⟩ := skipLine_tokens hts
    exact ⟨heq, fun _ => hfits⟩
  | .on [], h =>
    have hnil : m.tokens [] = [] := Fits.tokens_nil h
    rw [Halt.map, hnil]
    exact ⟨hnil.symm, fun hne => absurd rfl hne⟩
  | .on (t :: ts), h =>
    rw [Halt.map, m.tokens_cons, Halt.resume, Halt.resume, m.mark_kind]
    split
    · exact ⟨rfl, fun hts => Fits.tail_of_ne_nil h hts⟩
    · next hk =>
      obtain ⟨heq, hfits⟩ := skipLine_tokens (Fits.tail h hk)
      exact ⟨heq, fun _ => hfits⟩

theorem resumeInBlock_tokens {halt : Halt} (h : m.Fits halt.rest) :
    (halt.map m.tokens).resumeInBlock = m.tokens halt.resumeInBlock ∧
      (halt.resumeInBlock ≠ [] → m.Fits halt.resumeInBlock) := by
  have hresume := resume_tokens h
  match halt, h with
  | .before ts, h => exact hresume
  | .on [], h =>
    have hnil : m.tokens [] = [] := Fits.tokens_nil h
    rw [Halt.map, hnil] at hresume ⊢
    exact hresume
  | .on (t :: ts), h =>
    rw [Halt.map, m.tokens_cons, Halt.resumeInBlock, Halt.resumeInBlock, m.mark_kind]
    split
    · exact ⟨rfl, fun _ => h⟩
    · exact hresume

end Embedding

def Kind.opensBlock : Kind → Bool
  | kwIf | kwWhile | kwFor | kwRepeat | kwFunction => true
  | _ => false

namespace Parse

variable (m)

theorem stmtFrom_embeds_of_simple {t : Token} {us : List Token} (h : m.Fits (t :: us))
    (ht : t.kind.opensBlock = false) :
    ∃ o o' : Outcome (Stmt Token), (stmtFrom m.stop t us).run = o.run ∧
      (stmtFrom m.outer (m.mark t) (m.tokens us)).run = o'.run ∧
      o.Embeds m (Stmt.map m.mark) o' := by
  rw [run_stmtFrom, run_stmtFrom, m.mark_kind]
  split
  · next hk => exact ⟨_, _, rfl, rfl, nameStmt_embeds m t h hk⟩
  · next hk => exact ⟨_, _, rfl, rfl, localStmt_embeds m t (h.tail_of_kind hk (by decide))⟩
  · next hk => exact ⟨_, _, rfl, rfl, returnStmt_embeds m t (h.tail_of_kind hk (by decide))⟩
  · next hk => exact absurd ht (by rw [hk]; decide)
  · next hk => exact absurd ht (by rw [hk]; decide)
  · next hk => exact absurd ht (by rw [hk]; decide)
  · next hk => exact absurd ht (by rw [hk]; decide)
  · next hk => exact absurd ht (by rw [hk]; decide)
  · exact ⟨_, _, rfl, rfl, exprStmt_embeds m t h⟩

theorem closing_embeds {α β : Type} {f : α → β} {v : α} {form : Form} {kind : Kind} {what : String}
    {ts : List Token} (hkind : kind ≠ .newline) (h : m.Fits ts) :
    ((closing m.stop form kind what ts).outcome.map fun _ => v).run.Embeds m f
      ((closing m.outer form kind what (m.tokens ts)).outcome.map fun _ => f v).run := by
  refine Outcome.Embeds.run ?_
  exact (expectHere_embeds m hkind (fun _ => rfl) h).map fun _ => rfl

mutual

theorem stmtFrom_embeds (t : Token) (us : List Token) (h : m.Fits (t :: us)) :
    (stmtFrom m.stop t us).run.Embeds m (Stmt.map m.mark)
      (stmtFrom m.outer (m.mark t) (m.tokens us)).run := by
  by_cases hopen : t.kind.opensBlock = true
  · have hus : m.Fits us := by
      refine h.tail ?_
      intro hk
      rw [hk] at hopen
      exact absurd hopen (by decide)
    rw [run_stmtFrom, run_stmtFrom, m.mark_kind]
    split
    · next hk => exact absurd hopen (by rw [hk]; decide)
    · next hk => exact absurd hopen (by rw [hk]; decide)
    · next hk => exact absurd hopen (by rw [hk]; decide)
    · exact condStmt_embeds t us hus
    · exact whileStmt_embeds t us hus
    · exact forStmt_embeds t us hus
    · exact repeatStmt_embeds t us hus
    · exact functionStmt_embeds t us hus
    · exact (exprStmt_embeds m t h).run
  · obtain ⟨o, o', hrun, hrun', hembeds⟩ :=
      stmtFrom_embeds_of_simple m h (Bool.not_eq_true _ ▸ hopen)
    rw [hrun, hrun']
    exact hembeds.run
termination_by 4 * us.length + 3

theorem statements_embeds (construct terminator : Kind) (ts : List Token)
    (h : ts ≠ [] → m.Fits ts) :
    (statements m.stop construct terminator ts).run.Embeds m (Stmt.mapAll m.mark)
      (statements m.outer construct terminator (m.tokens ts)).run := by
  match ts with
  | [] =>
    by_cases hclosed : m.Closed
    · have hnil : m.Fits [] := .inl hclosed
      rw [hnil.tokens_nil, run_statements_nil, run_statements_nil]
      refine Outcome.Embeds.run ?_
      exact embeds_at_stop hnil rfl rfl
    · rw [run_statements_nil]
      exact .inr ⟨hclosed, _, List.mem_singleton_self _, rfl⟩
  | t :: us =>
    have hfits := h (List.cons_ne_nil t us)
    rw [m.tokens_cons]
    by_cases hend : t.kind.isBlockEnd = true
    · rw [run_statements_of_blockEnd _ _ _ us hend,
        run_statements_of_blockEnd (t := m.mark t) _ _ _ _ hend]
      exact (embeds_done hfits).run
    by_cases hsep : t.kind.isSeparator = true
    · rw [run_statements_of_separator _ _ _ us hsep,
        run_statements_of_separator (t := m.mark t) _ _ _ _ hsep]
      exact statements_embeds construct terminator us hfits.tail_of_ne_nil
    have hstmt := stmtFrom_embeds t us hfits
    rcases hrun : (stmtFrom m.stop t us).run with ⟨log, ⟨s, rest⟩ | ⟨d, halt⟩⟩
    · rw [hrun] at hstmt
      rw [run_statements_of_done _ _ _ hend hsep hrun]
      rcases hstmt with ⟨hrun', hrest⟩ | hover
      · have hlen := (Logged.suffix_of_run hrun).length_le
        rw [run_statements_of_done (t := m.mark t) _ _ _ hend hsep hrun']
        refine ((statements_embeds construct terminator rest fun _ => hrest).map ?_).after log
        exact fun ss => rfl
      · refine .inr (hover.mono ?_)
        rw [Run.diagnostics_after]
        exact List.subset_append_left _ _
    · rw [hrun] at hstmt
      rw [run_statements_of_failed _ _ _ hend hsep hrun]
      rcases hstmt with ⟨hrun', hhalt⟩ | hover
      · have hwithin := Logged.within_of_run hrun
        have hlen := Nat.le_of_lt_succ
          (Halt.length_resumeInBlock_lt hwithin (by simpa using hend))
        obtain ⟨hresume, hfits'⟩ := Embedding.resumeInBlock_tokens hhalt
        have hmore := statements_embeds construct terminator halt.resumeInBlock hfits'
        rw [run_statements_of_failed (t := m.mark t) _ _ _ hend hsep hrun', hresume]
        have hafter := hmore.after (log ++ [d])
        rwa [List.map_append] at hafter
      · refine .inr (hover.mono ?_)
        rw [Run.diagnostics_after]
        exact List.subset_append_left _ _
termination_by 4 * ts.length

theorem block_embeds (construct terminator : Kind) (opener : Token) (us : List Token)
    (h : m.Fits us) :
    (block m.stop construct terminator opener us).run.Embeds m (Block.map m.mark)
      (block m.outer construct terminator (m.mark opener) (m.tokens us)).run := by
  rw [run_block, run_block]
  exact (statements_embeds construct terminator us fun _ => h).map fun ss => rfl
termination_by 4 * us.length + 1

theorem condStmt_embeds (t : Token) (us : List Token) (h : m.Fits us) :
    (condStmt m.stop t us).run.Embeds m (Stmt.map m.mark)
      (condStmt m.outer (m.mark t) (m.tokens us)).run := by
  rw [run_condStmt, run_condStmt]
  refine (expr_embeds m .lowest us h).run.bind ?_
  intro c vs hc hvs
  have hlen := (Attempt.suffix_of_outcome hc).length_le
  refine (expect_embeds m (by decide) (fun _ => rfl) hvs).run.bind ?_
  intro th ws hth hws
  have hlen' := (Attempt.suffix_of_outcome hth).length_le
  refine (block_embeds .kwIf .kwEnd th ws hws).bind ?_
  intro b xs hb hxs
  have hlen'' := (Attempt.suffix_of_outcome hb).length_le
  refine (alternative_embeds xs hxs).map ?_
  rintro (_ | a) <;> rfl
termination_by 4 * us.length + 2

theorem alternative_embeds (ts : List Token) (h : m.Fits ts) :
    (alternative m.stop ts).run.Embeds m (Option.map (Block.map m.mark))
      (alternative m.outer (m.tokens ts)).run := by
  match ts with
  | [] =>
    rw [h.tokens_nil, run_alternative_nil, run_alternative_nil]
    refine Outcome.Embeds.run ?_
    exact embeds_at_stop h rfl rfl
  | t :: us =>
    rw [m.tokens_cons, run_alternative_cons, run_alternative_cons, m.mark_kind]
    split
    · next hk =>
      exact (condStmt_embeds t us (h.tail_of_kind hk (by decide))).map fun s => rfl
    split
    · next hk =>
      refine (block_embeds .kwIf .kwEnd t us (h.tail_of_kind hk (by decide))).bind ?_
      intro b vs _ hvs
      exact closing_embeds m (by decide) hvs
    · exact closing_embeds m (by decide) h
termination_by 4 * ts.length + 1

theorem whileStmt_embeds (t : Token) (us : List Token) (h : m.Fits us) :
    (whileStmt m.stop t us).run.Embeds m (Stmt.map m.mark)
      (whileStmt m.outer (m.mark t) (m.tokens us)).run := by
  rw [run_whileStmt, run_whileStmt]
  refine (expr_embeds m .lowest us h).run.bind ?_
  intro c vs hc hvs
  have hlen := (Attempt.suffix_of_outcome hc).length_le
  refine (expect_embeds m (by decide) (fun _ => rfl) hvs).run.bind ?_
  intro d ws hd hws
  have hlen' := (Attempt.suffix_of_outcome hd).length_le
  refine (block_embeds .kwWhile .kwEnd d ws hws).bind ?_
  intro b xs _ hxs
  exact closing_embeds m (by decide) hxs
termination_by 4 * us.length + 2

theorem forStmt_embeds (t : Token) (us : List Token) (h : m.Fits us) :
    (forStmt m.stop t us).run.Embeds m (Stmt.map m.mark)
      (forStmt m.outer (m.mark t) (m.tokens us)).run := by
  rw [run_forStmt, run_forStmt]
  refine (forHeader_embeds m h).run.bind ?_
  intro header vs hheader hvs
  have hlen := (Attempt.suffix_of_outcome hheader).length_le
  refine (block_embeds .kwFor .kwEnd header.opener vs hvs).bind ?_
  intro b ws _ hws
  exact closing_embeds m (by decide) hws
termination_by 4 * us.length + 2

theorem repeatStmt_embeds (t : Token) (us : List Token) (h : m.Fits us) :
    (repeatStmt m.stop t us).run.Embeds m (Stmt.map m.mark)
      (repeatStmt m.outer (m.mark t) (m.tokens us)).run := by
  rw [run_repeatStmt, run_repeatStmt]
  refine (block_embeds .kwRepeat .kwUntil t us h).bind ?_
  intro b vs _ hvs
  refine (Outcome.Embeds.run (expectHere_embeds m (by decide) (fun _ => rfl) hvs)).bind ?_
  intro _ ws _ hws
  refine Outcome.Embeds.run ?_
  exact (expr_embeds m .lowest ws hws).map fun c => rfl
termination_by 4 * us.length + 2

theorem functionStmt_embeds (t : Token) (us : List Token) (h : m.Fits us) :
    (functionStmt m.stop t us).run.Embeds m (Stmt.map m.mark)
      (functionStmt m.outer (m.mark t) (m.tokens us)).run := by
  rw [run_functionStmt, run_functionStmt]
  refine (functionHeader_embeds m h).run.bind ?_
  intro header vs hheader hvs
  have hlen := (Attempt.suffix_of_outcome hheader).length_le
  refine (block_embeds .kwFunction .kwEnd header.opener vs hvs).bind ?_
  intro b ws _ hws
  exact closing_embeds m (by decide) hws
termination_by 4 * us.length + 2

end

end Parse

namespace Parsed

def move (place : Position → Position) (p : Parsed) : Parsed :=
  ⟨p.program.map (Stmt.map (Token.move place)), p.diagnostics.map (Diagnostic.move place)⟩

def append (p q : Parsed) : Parsed :=
  ⟨p.program ++ q.program, p.diagnostics ++ q.diagnostics⟩

instance : Append Parsed := ⟨append⟩

theorem append_eq (p q : Parsed) :
    p ++ q = ⟨p.program ++ q.program, p.diagnostics ++ q.diagnostics⟩ := rfl

variable (m)

/-- A part that leaves no block open is read on its own, and then what is behind it. -/
theorem ofTokens_embeds (ts : List Token) (h : ts ≠ [] → m.Fits ts)
    (hstop : ¬m.Closed → ∀ d ∈ (ofTokens m.stop ts).diagnostics, d.position ≠ m.stop) :
    ofTokens m.outer (m.tokens ts) =
      (ofTokens m.stop ts).move m.place ++ ofTokens m.outer m.behind := by
  match ts with
  | [] =>
    rw [ofTokens_nil]
    rfl
  | t :: us =>
    have hfits := h (List.cons_ne_nil t us)
    rw [m.tokens_cons]
    by_cases hsep : t.kind.isSeparator = true
    · rw [ofTokens_of_separator _ us hsep] at hstop ⊢
      rw [ofTokens_of_separator (t := m.mark t) _ _ hsep]
      exact ofTokens_embeds us hfits.tail_of_ne_nil hstop
    have hstmt := Parse.stmtFrom_embeds m t us hfits
    -- an overrun would have a diagnostic at the end of the part
    have hover : ¬(Parse.stmtFrom m.stop t us).run.Overruns m := by
      rintro ⟨hopen, d, hd, hposition⟩
      refine hstop hopen d ?_ hposition
      rcases hrun : (Parse.stmtFrom m.stop t us).run with ⟨log, ⟨s, rest⟩ | ⟨e, halt⟩⟩
      · rw [hrun] at hd
        rw [ofTokens_of_done _ hsep hrun]
        exact List.mem_append_left _ hd
      · rw [hrun] at hd
        rw [ofTokens_of_failed _ hsep hrun, List.append_cons]
        exact List.mem_append_left _ hd
    obtain ⟨hrun', hrest⟩ := hstmt.resolve_right hover
    rcases hrun : (Parse.stmtFrom m.stop t us).run with ⟨log, ⟨s, rest⟩ | ⟨d, halt⟩⟩
    · rw [hrun] at hrun' hrest
      rw [ofTokens_of_done _ hsep hrun] at hstop ⊢
      have hlen := (Logged.suffix_of_run hrun).length_le
      have hmore := ofTokens_embeds rest (fun _ => hrest)
        fun hopen d hd => hstop hopen d (List.mem_append_right _ hd)
      rw [ofTokens_of_done (t := m.mark t) _ hsep hrun', hmore]
      simp only [append_eq, move, List.map_cons, List.map_append, List.cons_append,
        List.append_assoc]
      rfl
    · rw [hrun] at hrun' hrest
      rw [ofTokens_of_failed _ hsep hrun] at hstop ⊢
      have hlen := (Halt.resume_suffix (Logged.within_of_run hrun)).length_le
      obtain ⟨hresume, hfits'⟩ := Embedding.resume_tokens hrest
      have hmore := ofTokens_embeds halt.resume hfits' fun hopen d hd =>
        hstop hopen d (List.mem_append_right _ (List.mem_cons_of_mem _ hd))
      rw [ofTokens_of_failed (t := m.mark t) _ hsep hrun', hresume, hmore]
      simp only [append_eq, move, List.map_cons, List.map_append, List.cons_append,
        List.append_assoc]
termination_by ts.length

def before (p : Parsed) (r : Run (List (Stmt Token))) : Run (List (Stmt Token)) :=
  (r.map (p.program ++ ·)).after p.diagnostics

theorem before_cons (s : Stmt Token) (log : List Diagnostic) (p : Parsed)
    (r : Run (List (Stmt Token))) :
    ((p.before r).map (s :: ·)).after log = before ⟨s :: p.program, log ++ p.diagnostics⟩ r := by
  obtain ⟨rlog, o⟩ := r
  cases o <;> simp [before]

theorem before_log (log : List Diagnostic) (d : Diagnostic) (p : Parsed)
    (r : Run (List (Stmt Token))) :
    (p.before r).after (log ++ [d]) = before ⟨p.program, log ++ d :: p.diagnostics⟩ r := by
  obtain ⟨rlog, o⟩ := r
  cases o <;> simp [before]

end Parsed

theorem Parsed.before_map (p : Parsed) (ss : List (Stmt Token)) (r : Run (List (Stmt Token))) :
    p.before (r.map (ss ++ ·)) = before ⟨p.program ++ ss, p.diagnostics⟩ r := by
  obtain ⟨rlog, o⟩ := r
  cases o <;> simp [before]

def Kind.boundsBlock (k : Kind) : Bool := k.opensBlock || k.isBlockEnd

theorem Halt.resumeInBlock_eq_resume {halt : Halt}
    (h : ∀ t ∈ halt.rest, t.kind.isBlockEnd = false) : halt.resumeInBlock = halt.resume := by
  match halt, h with
  | .before ts, _ => rfl
  | .on [], _ => rfl
  | .on (t :: ts), h =>
    have ht : ¬t.kind.isBlockEnd = true := by simp [h t List.mem_cons_self]
    rw [Halt.resumeInBlock, if_neg ht]

theorem Halt.Within.rest_subset {t : Token} {us : List Token} {halt : Halt}
    (h : halt.Within [t] us) : halt.rest ⊆ t :: us := by
  cases halt with
  | on ts => exact List.IsSuffix.subset h
  | before ts => exact fun u hu => List.mem_cons_of_mem t (List.IsSuffix.subset h hu)

/-- Lines that open and close no block. They are read before what is behind them, at the top of a
program and in any block, whatever is wrong with them. -/
theorem Parsed.line_embeds (ts : List Token) (h : ts ≠ [] → m.Fits ts)
    (hfree : ∀ t ∈ ts, t.kind.boundsBlock = false) :
    ofTokens m.outer (m.tokens ts) =
        (ofTokens m.stop ts).move m.place ++ ofTokens m.outer m.behind ∧
      ∀ construct terminator, (Parse.statements m.outer construct terminator (m.tokens ts)).run =
        ((ofTokens m.stop ts).move m.place).before
          (Parse.statements m.outer construct terminator m.behind).run := by
  match ts with
  | [] =>
    rw [ofTokens_nil]
    exact ⟨rfl, fun _ _ => (Run.map_id _).symm⟩
  | t :: us =>
    have hfits := h (List.cons_ne_nil t us)
    obtain ⟨ht, hus⟩ := List.forall_mem_cons.1 hfree
    obtain ⟨hopen, hclose⟩ := Bool.or_eq_false_iff.1 ht
    have hend : ¬t.kind.isBlockEnd = true := by simp [hclose]
    rw [m.tokens_cons]
    by_cases hsep : t.kind.isSeparator = true
    · obtain ⟨htop, hblock⟩ := line_embeds us hfits.tail_of_ne_nil hus
      rw [ofTokens_of_separator _ us hsep, ofTokens_of_separator (t := m.mark t) _ _ hsep]
      refine ⟨htop, fun construct terminator => ?_⟩
      rw [Parse.run_statements_of_separator (t := m.mark t) _ _ _ _ hsep]
      exact hblock construct terminator
    obtain ⟨o, o', hrun, hrun', rfl, hrest⟩ := Parse.stmtFrom_embeds_of_simple m hfits hopen
    cases o with
    | done s rest =>
      have hsuffix := Logged.suffix_of_run hrun
      have hlen := hsuffix.length_le
      obtain ⟨htop, hblock⟩ := line_embeds rest (fun _ => hrest)
        fun u hu => hus u (hsuffix.subset hu)
      rw [ofTokens_of_done _ hsep hrun, ofTokens_of_done (t := m.mark t) _ hsep hrun', htop]
      refine ⟨rfl, fun construct terminator => ?_⟩
      rw [Parse.run_statements_of_done (t := m.mark t) _ _ _ hend hsep hrun', hblock, before_cons]
      rfl
    | failed d halt =>
      have hwithin := Logged.within_of_run hrun
      have hsuffix := Halt.resume_suffix hwithin
      have hlen := hsuffix.length_le
      -- no keyword that closes a block makes a difference between the two ways to go on
      have hresume : halt.resumeInBlock = halt.resume := by
        refine Halt.resumeInBlock_eq_resume fun u hu => ?_
        exact (Bool.or_eq_false_iff.1 (hfree u (hwithin.rest_subset hu))).2
      obtain ⟨htokens, hfits'⟩ := Embedding.resume_tokens hrest
      obtain ⟨htokens', -⟩ := Embedding.resumeInBlock_tokens hrest
      obtain ⟨htop, hblock⟩ := line_embeds halt.resume hfits'
        fun u hu => hus u (hsuffix.subset hu)
      rw [ofTokens_of_failed _ hsep hrun, ofTokens_of_failed (t := m.mark t) _ hsep hrun', htokens,
        htop]
      refine ⟨rfl, fun construct terminator => ?_⟩
      rw [Parse.run_statements_of_failed (t := m.mark t) _ _ _ hend hsep hrun', htokens', hresume,
        hblock]
      exact before_log _ _ _ _
termination_by ts.length

end LuaSyntax

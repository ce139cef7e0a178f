import LuaSyntax.Proofs.Embedding
import LuaSyntax.Proofs.Sentence

/-! Putting statements into a program at a place between two of its tokens. The place is that of
a derivation of the program, cut in two: in a block at any depth, or at the top. Behind a line end
there is always such a place, since line ends stand only between statements. -/

namespace LuaSyntax

namespace Grammar

mutual

/-- The tokens `as` and `bs` are the statements `ss`, and `qs` are these with the statements `new`
put in where `as` ends. -/
inductive Inserted (new : List (Stmt Token)) : List (Stmt Token) → List (Stmt Token) →
    List Token → List Token → Option Kind → Prop
  | here {ss bs next} (hss : Statements ss bs next) : Inserted new ss (new ++ ss) [] bs next
  | separator {t ss qs as bs next} (ht : t.kind.isSeparator = true)
      (h : Inserted new ss qs as bs next) : Inserted new ss qs (t :: as) bs next
  | cons {s ts ss qs a as bs next} (hs : Statement s ts (some a.kind))
      (h : Inserted new ss qs (a :: as) bs next) :
      Inserted new (s :: ss) (s :: qs) (ts ++ a :: as) bs next
  | inside {s s' ss as bs us next} (hs : InsertedStmt new s s' as bs (ahead us next))
      (hss : Statements ss us next) : Inserted new (s :: ss) (s' :: ss) as (bs ++ us) next

inductive InsertedStmt (new : List (Stmt Token)) : Stmt Token → Stmt Token → List Token →
    List Token → Option Kind → Prop
  | cond {t s s' as bs next} (ht : t.kind = .kwIf) (hs : InsertedBranch new t s s' as bs) :
      InsertedStmt new s s' (t :: as) bs next
  | whileLoop {t c cs d ss qs as bs e next} (ht : t.kind = .kwWhile) (hc : Expression c cs)
      (hd : d.kind = .kwDo) (hss : Inserted new ss qs as bs (some .kwEnd)) (he : e.kind = .kwEnd) :
      InsertedStmt new (.whileLoop t c ⟨d, ss⟩) (.whileLoop t c ⟨d, qs⟩) (t :: (cs ++ d :: as))
        (bs ++ [e]) next
  | forLoop {t h hs ss qs as bs e next} (ht : t.kind = .kwFor) (hh : ForHead h hs)
      (hss : Inserted new ss qs as bs (some .kwEnd)) (he : e.kind = .kwEnd) :
      InsertedStmt new (.forLoop t h.init h.limit h.step ⟨h.opener, ss⟩)
        (.forLoop t h.init h.limit h.step ⟨h.opener, qs⟩) (t :: (hs ++ as)) (bs ++ [e]) next
  | repeatLoop {t ss qs as bs u c cs next} (ht : t.kind = .kwRepeat)
      (hss : Inserted new ss qs as bs (some .kwUntil)) (hu : u.kind = .kwUntil)
      (hc : Expression c cs) (hnext : Stops .lowest next) :
      InsertedStmt new (.repeatLoop t ⟨t, ss⟩ c) (.repeatLoop t ⟨t, qs⟩ c) (t :: as)
        (bs ++ u :: cs) next
  | function {t h hs ss qs as bs e next} (ht : t.kind = .kwFunction) (hh : FunctionHead h hs)
      (hss : Inserted new ss qs as bs (some .kwEnd)) (he : e.kind = .kwEnd) :
      InsertedStmt new (.function t (.ofToken h.name) h.parameters ⟨h.opener, ss⟩)
        (.function t (.ofToken h.name) h.parameters ⟨h.opener, qs⟩) (t :: (hs ++ as)) (bs ++ [e])
        next

inductive InsertedBranch (new : List (Stmt Token)) : Token → Stmt Token → Stmt Token →
    List Token → List Token → Prop
  | consequence {t c cs th ss qs as bs a us} (hc : Expression c cs) (hth : th.kind = .kwThen)
      (hss : Inserted new ss qs as bs (ahead us none)) (ha : Alternative a us) :
      InsertedBranch new t (.cond t c ⟨th, ss⟩ a) (.cond t c ⟨th, qs⟩ a) (cs ++ th :: as) (bs ++ us)
  | alternative {t c cs th ss ts a a' as bs} (hc : Expression c cs) (hth : th.kind = .kwThen)
      (hss : Statements ss ts (ahead (as ++ bs) none)) (ha : InsertedAlternative new a a' as bs) :
      InsertedBranch new t (.cond t c ⟨th, ss⟩ a) (.cond t c ⟨th, ss⟩ a')
        (cs ++ th :: (ts ++ as)) bs

inductive InsertedAlternative (new : List (Stmt Token)) : Option (Block Token (Stmt Token)) →
    Option (Block Token (Stmt Token)) → List Token → List Token → Prop
  | block {t ss qs as bs e} (ht : t.kind = .kwElse) (hss : Inserted new ss qs as bs (some .kwEnd))
      (he : e.kind = .kwEnd) :
      InsertedAlternative new (some ⟨t, ss⟩) (some ⟨t, qs⟩) (t :: as) (bs ++ [e])
  | branch {t s s' as bs} (ht : t.kind = .kwElseif) (hs : InsertedBranch new t s s' as bs) :
      InsertedAlternative new (some ⟨t, [s]⟩) (some ⟨t, [s']⟩) (t :: as) bs

end

/-! Where line ends stand. -/

def OneLine (ts : List Token) : Prop := ∀ t ∈ ts, t.kind ≠ .newline

theorem OneLine.not_endsLine {ts : List Token} (h : OneLine ts) : ¬EndsLine ts := by
  intro hline
  obtain ⟨t, hlast, ht⟩ := Option.map_eq_some_iff.1 hline
  exact h t (List.mem_of_getLast? hlast) ht

theorem endsLine_append (ts : List Token) {us : List Token} (hus : us ≠ []) :
    EndsLine (ts ++ us) ↔ EndsLine us := by
  obtain ⟨u, vs, rfl⟩ := List.exists_cons_of_ne_nil hus
  rw [EndsLine, EndsLine, List.getLast?_append, List.getLast?_cons, Option.some_or]

theorem oneLine_of_inHead {ts : List Token} (h : ∀ t ∈ ts, t.kind.inHead = true) : OneLine ts := by
  intro t ht hk
  have hhead := h t ht
  rw [hk] at hhead
  exact absurd hhead (by decide)

theorem OneLine.cons {t : Token} {ts : List Token} {k : Kind} (ht : t.kind = k)
    (hk : k ≠ .newline) (hts : OneLine ts) : OneLine (t :: ts) := by
  refine List.forall_mem_cons.2 ⟨?_, hts⟩
  rwa [ht]

theorem OneLine.append {ts us : List Token} (hts : OneLine ts) (hus : OneLine us) :
    OneLine (ts ++ us) := List.forall_mem_append.2 ⟨hts, hus⟩

theorem oneLine_nil : OneLine [] := List.forall_mem_nil _

theorem cut_behind_head {hs ts as bs : List Token} (hhead : OneLine hs) (hline : EndsLine as)
    (h : hs ++ ts = as ++ bs) : ∃ as', as = hs ++ as' ∧ ts = as' ++ bs ∧ EndsLine as' := by
  rcases List.append_eq_append_iff.1 h with ⟨as', rfl, rfl⟩ | ⟨cs, rfl, rfl⟩
  · have hne : as' ≠ [] := by
      rintro rfl
      rw [List.append_nil] at hline
      exact hhead.not_endsLine hline
    exact ⟨as', rfl, rfl, (endsLine_append _ hne).1 hline⟩
  · refine absurd hline (OneLine.not_endsLine ?_)
    exact (List.forall_mem_append.1 hhead).1

theorem cut_before_tail {ts us as bs : List Token} (htail : OneLine us) (hline : EndsLine as)
    (h : ts ++ us = as ++ bs) : ∃ bs', ts = as ++ bs' ∧ bs = bs' ++ us := by
  rcases List.append_eq_append_iff.1 h with ⟨as', rfl, rfl⟩ | ⟨bs', rfl, rfl⟩
  · have hnil : as' = [] := by
      by_cases hne : as' = []
      · exact hne
      · have hlast := (endsLine_append _ hne).1 hline
        exact absurd hlast (OneLine.not_endsLine (List.forall_mem_append.1 htail).1)
    subst hnil
    exact ⟨[], by simp, rfl⟩
  · exact ⟨bs', rfl, rfl⟩

/-- A cut behind a line end lies in the body of what has one line before it and one behind. -/
theorem cut_in_body {hs ts us as bs : List Token} (hhead : OneLine hs) (htail : OneLine us)
    (h : hs ++ (ts ++ us) = as ++ bs) (hline : EndsLine as) :
    ∃ as' bs', as = hs ++ as' ∧ bs = bs' ++ us ∧ ts = as' ++ bs' ∧ EndsLine as' := by
  obtain ⟨as', has, hrest, hline'⟩ := cut_behind_head hhead hline h
  obtain ⟨bs', hts, hbs⟩ := cut_before_tail htail hline' hrest
  exact ⟨as', bs', has, hbs, hts, hline'⟩

theorem OneLine.not_cut {ts as bs : List Token} (h : OneLine ts) (hcut : ts = as ++ bs) :
    ¬EndsLine as := by
  subst hcut
  exact OneLine.not_endsLine (List.forall_mem_append.1 h).1

theorem not_endsLine_nil : ¬EndsLine [] := nofun

theorem oneLine_singleton {t : Token} {k : Kind} (ht : t.kind = k) (hk : k ≠ .newline) :
    OneLine [t] := .cons ht hk oneLine_nil

theorem Expression.oneLine {e : Expr Token} {ts : List Token} (h : Expression e ts) :
    OneLine ts := oneLine_of_inHead h.inHead

theorem Arguments.oneLine {es : List (Expr Token)} {ts : List Token} (h : Arguments es ts) :
    OneLine ts := oneLine_of_inHead fun t ht => Kind.inHead_of_inExpr (h.inExpr t ht)

variable (new : List (Stmt Token))

mutual

theorem Statement.exists_inserted : ∀ {s : Stmt Token} {ts : List Token} {next : Option Kind},
    Statement s ts next → ∀ as bs, ts = as ++ bs → EndsLine as →
    ∃ s', InsertedStmt new s s' as bs next
  | _, _, _, .expression he _ _, _, _, hcut, hline =>
    absurd hline (he.oneLine.not_cut hcut)
  | _, _, _, .call ht hop hes, _, _, hcut, hline => by
    have hone := OneLine.cons ht (by decide) (.cons hop (by decide) hes.oneLine)
    exact absurd hline (hone.not_cut hcut)
  | _, _, _, .assign ht heq he _, _, _, hcut, hline => by
    have hone := OneLine.cons ht (by decide) (.cons heq (by decide) he.oneLine)
    exact absurd hline (hone.not_cut hcut)
  | _, _, _, .localAssign ht hn heq he _, _, _, hcut, hline => by
    have hone := OneLine.cons ht (by decide)
      (.cons hn (by decide) (.cons heq (by decide) he.oneLine))
    exact absurd hline (hone.not_cut hcut)
  | _, _, _, .ret ht _, _, _, hcut, hline =>
    absurd hline ((oneLine_singleton ht (by decide)).not_cut hcut)
  | _, _, _, .retValue ht he _, _, _, hcut, hline => by
    have hone := OneLine.cons ht (by decide) he.oneLine
    exact absurd hline (hone.not_cut hcut)
  | _, _, _, @Statement.cond t s ts next ht hs, as, bs, hcut, hline => by
    have ih := Branch.exists_inserted hs
    obtain ⟨as', rfl, hts, hline'⟩ :=
      cut_behind_head (oneLine_singleton ht (by decide)) hline hcut
    obtain ⟨s', hs'⟩ := ih as' bs hts hline'
    exact ⟨s', .cond ht hs'⟩
  | _, _, _, @Statement.whileLoop t c cs d ss body e next ht hc hd hss he, as, bs, hcut, hline => by
    have ih := Statements.exists_inserted hss
    have hhead : OneLine (t :: (cs ++ [d])) :=
      .cons ht (by decide) (hc.oneLine.append (oneLine_singleton hd (by decide)))
    have hshape : ∀ vs, t :: (cs ++ [d]) ++ vs = t :: (cs ++ d :: vs) := by simp
    obtain ⟨as', bs', rfl, rfl, hbody, hline'⟩ := cut_in_body hhead
      (oneLine_singleton he (by decide)) ((hshape _).trans hcut) hline
    obtain ⟨qs, hqs⟩ := ih as' bs' hbody hline'
    rw [hshape]
    exact ⟨_, .whileLoop ht hc hd hqs he⟩
  | _, _, _, @Statement.forLoop t h hs ss body e next ht hh hss he, as, bs, hcut, hline => by
    have ih := Statements.exists_inserted hss
    have hhead : OneLine (t :: hs) := .cons ht (by decide) (oneLine_of_inHead hh.inHead)
    obtain ⟨as', bs', rfl, rfl, hbody, hline'⟩ := cut_in_body hhead
      (oneLine_singleton he (by decide)) hcut hline
    obtain ⟨qs, hqs⟩ := ih as' bs' hbody hline'
    exact ⟨_, .forLoop ht hh hqs he⟩
  | _, _, _, @Statement.repeatLoop t ss body u c cs next ht hss hu hc hnext, as, bs, hcut,
      hline => by
    have ih := Statements.exists_inserted hss
    obtain ⟨as', bs', rfl, rfl, hbody, hline'⟩ := cut_in_body
      (oneLine_singleton ht (by decide)) (.cons hu (by decide) hc.oneLine) hcut hline
    obtain ⟨qs, hqs⟩ := ih as' bs' hbody hline'
    exact ⟨_, .repeatLoop ht hqs hu hc hnext⟩
  | _, _, _, @Statement.function t h hs ss body e next ht hh hss he, as, bs, hcut, hline => by
    have ih := Statements.exists_inserted hss
    have hhead : OneLine (t :: hs) := .cons ht (by decide) (oneLine_of_inHead hh.inHead)
    obtain ⟨as', bs', rfl, rfl, hbody, hline'⟩ := cut_in_body hhead
      (oneLine_singleton he (by decide)) hcut hline
    obtain ⟨qs, hqs⟩ := ih as' bs' hbody hline'
    exact ⟨_, .function ht hh hqs he⟩

theorem Statements.exists_inserted : ∀ {ss : List (Stmt Token)} {ts : List Token}
    {next : Option Kind}, Statements ss ts next → ∀ as bs, ts = as ++ bs → EndsLine as →
    ∃ qs, Inserted new ss qs as bs next
  | _, _, _, .nil, as, bs, hcut, hline => by
    obtain ⟨rfl, -⟩ := List.append_eq_nil_iff.1 hcut.symm
    exact absurd hline not_endsLine_nil
  | _, _, _, @Statements.separator t ss ts next ht hss, as, bs, hcut, hline => by
    have ih := Statements.exists_inserted hss
    cases as with
    | nil => exact absurd hline not_endsLine_nil
    | cons a as =>
      obtain ⟨rfl, rfl⟩ := List.cons.inj hcut
      by_cases hnil : as = []
      · subst hnil
        exact ⟨_, .separator ht (.here hss)⟩
      · obtain ⟨qs, hqs⟩ := ih as bs rfl ((endsLine_append [t] hnil).1 hline)
        exact ⟨qs, .separator ht hqs⟩
  | _, _, _, @Statements.cons s ts ss us next hs hss, as, bs, hcut, hline => by
    have ih := Statements.exists_inserted hss
    have ihs := Statement.exists_inserted hs
    rcases List.append_eq_append_iff.1 hcut with ⟨as', rfl, rfl⟩ | ⟨bs', rfl, rfl⟩
    · cases as' with
      | nil =>
        rw [List.append_nil] at hline ⊢
        obtain ⟨s', hs'⟩ := ihs ts [] (List.append_nil ts).symm hline
        exact ⟨s' :: ss, .inside hs' hss⟩
      | cons a as' =>
        have hends := (endsLine_append _ (List.cons_ne_nil a as')).1 hline
        obtain ⟨qs, hqs⟩ := ih (a :: as') bs rfl hends
        exact ⟨s :: qs, .cons hs hqs⟩
    · obtain ⟨s', hs'⟩ := ihs as bs' rfl hline
      exact ⟨s' :: ss, .inside hs' hss⟩

theorem Branch.exists_inserted : ∀ {t : Token} {s : Stmt Token} {ts : List Token},
    Branch t s ts → ∀ as bs, ts = as ++ bs → EndsLine as → ∃ s', InsertedBranch new t s s' as bs
  | _, _, _, @Branch.mk t c cs th ss body a us hc hth hss ha, as, bs, hcut, hline => by
    have ih := Statements.exists_inserted hss
    have iha := Alternative.exists_inserted ha
    have hhead : OneLine (cs ++ [th]) := hc.oneLine.append (oneLine_singleton hth (by decide))
    obtain ⟨as', rfl, hrest, hline'⟩ := cut_behind_head hhead hline (by simpa using hcut)
    have hshape : ∀ vs, cs ++ [th] ++ vs = cs ++ th :: vs := by simp
    rw [hshape]
    rcases List.append_eq_append_iff.1 hrest with ⟨as'', rfl, rfl⟩ | ⟨bs', rfl, rfl⟩
    · by_cases hnil : as'' = []
      · subst hnil
        rw [List.append_nil] at hline' ⊢
        obtain ⟨qs, hqs⟩ := ih body [] (List.append_nil body).symm hline'
        exact ⟨_, .consequence hc hth hqs ha⟩
      · obtain ⟨a', ha'⟩ := iha as'' bs rfl ((endsLine_append _ hnil).1 hline')
        exact ⟨_, .alternative hc hth hss ha'⟩
    · obtain ⟨qs, hqs⟩ := ih as' bs' rfl hline'
      exact ⟨_, .consequence hc hth hqs ha⟩

theorem Alternative.exists_inserted : ∀ {a : Option (Block Token (Stmt Token))} {ts : List Token},
    Alternative a ts → ∀ as bs, ts = as ++ bs → EndsLine as →
    ∃ a', InsertedAlternative new a a' as bs
  | _, _, .none he, _, _, hcut, hline =>
    absurd hline ((oneLine_singleton he (by decide)).not_cut hcut)
  | _, _, @Alternative.block t ss body e ht hss he, as, bs, hcut, hline => by
    have ih := Statements.exists_inserted hss
    obtain ⟨as', bs', rfl, rfl, hbody, hline'⟩ := cut_in_body
      (oneLine_singleton ht (by decide)) (oneLine_singleton he (by decide)) hcut hline
    obtain ⟨qs, hqs⟩ := ih as' bs' hbody hline'
    exact ⟨_, .block ht hqs he⟩
  | _, _, @Alternative.branch t s ts ht hs, as, bs, hcut, hline => by
    have ih := Branch.exists_inserted hs
    obtain ⟨as', rfl, hts, hline'⟩ :=
      cut_behind_head (oneLine_singleton ht (by decide)) hline hcut
    obtain ⟨s', hs'⟩ := ih as' bs hts hline'
    exact ⟨_, .branch ht hs'⟩

end

end Grammar

end LuaSyntax

import LuaSyntax.Diagnostic

/-! Attempts at reading something from a list of tokens. An attempt either takes
tokens and leaves a rest, or fails with one diagnostic and tells where it
stopped. Either way what is left is a suffix of what was there, and that is part
of the type. -/

namespace LuaSyntax

/-- Where a failed attempt stopped: `on` the first token of the rest, which may be at fault
itself, or right `before` it, with the token in front already taken. -/
inductive Halt where
  | on (rest : List Token)
  | before (rest : List Token)
deriving DecidableEq

namespace Halt

/-- An attempt at the tokens `lead` and then `us` may stop on any of them, and before any that
comes after `lead`. -/
def Within (lead us : List Token) : Halt → Prop
  | on rest => rest <:+ lead ++ us
  | before rest => rest <:+ us

theorem Within.of_suffix {lead us rest : List Token} {h : Halt} (hw : h.Within [] rest)
    (hrest : rest <:+ us) : h.Within lead us := by
  cases h with
  | on ts => exact (List.IsSuffix.trans hw hrest).trans (List.suffix_append lead us)
  | before ts => exact List.IsSuffix.trans hw hrest

theorem Within.whole {t : Token} {us : List Token} {h : Halt} (hw : h.Within [t] us) :
    h.Within [] (t :: us) := by
  cases h with
  | on ts => exact hw
  | before ts => exact List.IsSuffix.trans hw (List.suffix_cons t us)

def stopsRecovery (t : Token) : Bool := t.kind == .newline || t.kind.isBlockEnd

def skipLine (ts : List Token) : List Token := ts.dropWhile (!stopsRecovery ·)

theorem skipLine_suffix (ts : List Token) : skipLine ts <:+ ts := List.dropWhile_suffix _

/-- Where to go on after a failure. The rest of the line is skipped, up to a keyword that
closes a block; a line end that was itself at fault is behind already. -/
def resume : Halt → List Token
  | on [] => []
  | on (t :: ts) => if t.kind = .newline then ts else skipLine ts
  | before ts => skipLine ts

/-- Where a block goes on after a failure in it. A keyword that closes a block is kept
even if it was itself at fault. -/
def resumeInBlock : Halt → List Token
  | on (t :: ts) => if t.kind.isBlockEnd then t :: ts else resume (on (t :: ts))
  | halt => halt.resume

theorem resume_suffix {t : Token} {us : List Token} {h : Halt} (hw : h.Within [t] us) :
    h.resume <:+ us := by
  cases h with
  | on rest =>
    cases rest with
    | nil => exact List.nil_suffix
    | cons u ts =>
      have hts : ts <:+ us := by
        rcases List.suffix_cons_iff.1 hw with heq | hsuffix
        · rw [(List.cons.inj heq).2]
          exact List.suffix_rfl
        · exact (List.suffix_cons u ts).trans hsuffix
      simp only [resume]
      split
      · exact hts
      · exact (skipLine_suffix ts).trans hts
  | before rest => exact (skipLine_suffix rest).trans hw

theorem resumeInBlock_suffix {t : Token} {us : List Token} {h : Halt} (hw : h.Within [t] us) :
    h.resumeInBlock <:+ t :: us := by
  unfold resumeInBlock
  split
  · split
    · exact hw
    · exact (resume_suffix hw).trans (List.suffix_cons t us)
  · exact (resume_suffix hw).trans (List.suffix_cons t us)

theorem length_resume_lt {t : Token} {us : List Token} {h : Halt} (hw : h.Within [t] us) :
    h.resume.length < (t :: us).length := by
  have := (resume_suffix hw).length_le
  simp only [List.length_cons]
  omega

theorem length_resumeInBlock_lt {t : Token} {us : List Token} {h : Halt} (hw : h.Within [t] us)
    (ht : t.kind.isBlockEnd = false) : h.resumeInBlock.length < (t :: us).length := by
  unfold resumeInBlock
  split
  · next u ts =>
    split
    · next hu =>
      have hsuffix : u :: ts <:+ t :: us := hw
      refine Nat.lt_of_le_of_ne hsuffix.length_le fun hlen => ?_
      obtain ⟨rfl, -⟩ := List.cons.inj (hsuffix.eq_of_length hlen)
      simp [ht] at hu
    · exact length_resume_lt hw
  · exact length_resume_lt hw

end Halt

/-- An attempt at an `α` in the tokens `lead` and then `us`. One that succeeds takes all of
`lead`, which is either empty or the single token that tells what is attempted. -/
inductive Attempt (α : Type) (lead us : List Token) where
  | done (value : α) (rest : List Token) (taken : rest <:+ us)
  | failed (diagnostic : Diagnostic) (halt : Halt) (within : halt.Within lead us)

namespace Attempt

variable {α β : Type} {lead us : List Token}

def map (f : α → β) : Attempt α lead us → Attempt β lead us
  | done a rest h => done (f a) rest h
  | failed d halt h => failed d halt h

def ofRest {rest : List Token} (h : rest <:+ us) : Attempt α [] rest → Attempt α lead us
  | done a ts ht => done a ts (ht.trans h)
  | failed d halt hw => failed d halt (hw.of_suffix h)

def whole {t : Token} : Attempt α [t] us → Attempt α [] (t :: us)
  | done a rest h => done a rest (h.trans (List.suffix_cons t us))
  | failed d halt h => failed d halt h.whole

def taking (t : Token) (a : Attempt α [] us) : Attempt α [t] us := a.ofRest List.suffix_rfl

def past (t : Token) (a : Attempt α [] us) : Attempt α [] (t :: us) :=
  a.ofRest (List.suffix_cons t us)

def bind (a : Attempt α lead us)
    (f : (value : α) → (rest : List Token) → rest <:+ us → Attempt β [] rest) :
    Attempt β lead us :=
  match a with
  | done a rest h => (f a rest h).ofRest h
  | failed d halt h => failed d halt h

def pure (a : α) (ts : List Token) : Attempt α [] ts := done a ts List.suffix_rfl

def failOn (d : Diagnostic) (ts : List Token) : Attempt α [] ts :=
  failed d (.on ts) List.suffix_rfl

def failBefore (d : Diagnostic) (ts : List Token) : Attempt α [] ts :=
  failed d (.before ts) List.suffix_rfl

def ofToken (t : Token) (us : List Token) : Except Problem α → Attempt α [t] us
  | .ok a => done a us List.suffix_rfl
  | .error p => failed ⟨p, t.start⟩ (.on (t :: us)) List.suffix_rfl

@[simp] theorem map_done (f : α → β) (a : α) (rest : List Token) (h : rest <:+ us) :
    (done a rest h : Attempt α lead us).map f = done (f a) rest h := rfl

@[simp] theorem map_failed (f : α → β) (d : Diagnostic) (halt : Halt) (h : halt.Within lead us) :
    (failed d halt h : Attempt α lead us).map f = failed d halt h := rfl

@[simp] theorem bind_done (a : α) (rest : List Token) (h : rest <:+ us)
    (f : (value : α) → (rest : List Token) → rest <:+ us → Attempt β [] rest) :
    (done a rest h : Attempt α lead us).bind f = (f a rest h).ofRest h := rfl

@[simp] theorem bind_failed (d : Diagnostic) (halt : Halt) (h : halt.Within lead us)
    (f : (value : α) → (rest : List Token) → rest <:+ us → Attempt β [] rest) :
    (failed d halt h : Attempt α lead us).bind f = failed d halt h := rfl

end Attempt

/-- Takes a token of the expected kind. Otherwise the attempt stops before the token that
stands there, or before the end of input at `stop`. -/
def expect (stop : Position) (kind : Kind) (problem : Token → Problem) :
    (ts : List Token) → Attempt Token [] ts
  | [] => .failBefore ⟨problem (.eof stop), stop⟩ []
  | t :: ts =>
    if t.kind = kind then .done t ts (List.suffix_cons t ts)
    else .failBefore ⟨problem t, t.start⟩ (t :: ts)

/-- Takes a closing keyword that has been reached already. Otherwise the attempt stops on what
stands there. -/
def expectHere (stop : Position) (kind : Kind) (problem : Token → Problem) :
    (ts : List Token) → Attempt Token [] ts
  | [] => .failOn ⟨problem (.eof stop), stop⟩ []
  | t :: ts =>
    if t.kind = kind then .done t ts (List.suffix_cons t ts)
    else .failOn ⟨problem t, t.start⟩ (t :: ts)

/-- An attempt, and the diagnostics of statements that were dropped on the way. -/
structure Logged (α : Type) (lead us : List Token) where
  log : List Diagnostic
  attempt : Attempt α lead us

namespace Logged

variable {α β : Type} {lead us : List Token}

def map (f : α → β) (a : Logged α lead us) : Logged β lead us := ⟨a.log, a.attempt.map f⟩

def whole {t : Token} (a : Logged α [t] us) : Logged α [] (t :: us) := ⟨a.log, a.attempt.whole⟩

def taking (t : Token) (a : Logged α [] us) : Logged α [t] us := ⟨a.log, a.attempt.taking t⟩

def past (t : Token) (a : Logged α [] us) : Logged α [] (t :: us) := ⟨a.log, a.attempt.past t⟩

def after {rest : List Token} (log : List Diagnostic) (h : rest <:+ us) (a : Logged α [] rest) :
    Logged α lead us :=
  ⟨log ++ a.log, a.attempt.ofRest h⟩

def andThen (a : Logged α lead us)
    (f : (value : α) → (rest : List Token) → rest <:+ us → Logged β [] rest) :
    Logged β lead us :=
  match a.attempt with
  | .done value rest h => (f value rest h).after a.log h
  | .failed d halt h => ⟨a.log, .failed d halt h⟩

end Logged

namespace Attempt

variable {α β : Type} {lead us : List Token}

def logged (a : Attempt α lead us) : Logged α lead us := ⟨[], a⟩

def andThen (a : Attempt α lead us)
    (f : (value : α) → (rest : List Token) → rest <:+ us → Logged β [] rest) :
    Logged β lead us :=
  a.logged.andThen f

end Attempt

end LuaSyntax

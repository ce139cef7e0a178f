import LuaSyntax.Parse.Simple

/-! What stands between the keyword of a `for` or a function and its block. -/

namespace LuaSyntax.Parse

variable (stop : Position)

def unclosedParameters (t : Token) : Problem := .wanted .function "`)` after parameters" t

def noParameter (t : Token) : Problem := .wanted .function "parameter name" t

def moreParameters (us : List Token) : Attempt (List (Name Token) × Token) [] us :=
  match us with
  | [] => (expect stop .rightParen unclosedParameters []).map fun closer => ([], closer)
  | t :: vs =>
    if t.kind = .comma then
      ((expect stop .identifier noParameter vs).bind fun name rest _ =>
        (moreParameters rest).map fun (ps, closer) => (.ofToken name :: ps, closer)).past t
    else (expect stop .rightParen unclosedParameters (t :: vs)).map fun closer => ([], closer)
termination_by us.length
decreasing_by
  next hr =>
  have := hr.length_le
  simp only [List.length_cons]
  omega

def parameters (us : List Token) : Attempt (List (Name Token) × Token) [] us :=
  match us with
  | [] => (expect stop .identifier noParameter []).map fun t => ([], t)
  | t :: vs =>
    if t.kind = .rightParen then .done ([], t) vs (List.suffix_cons t vs)
    else
      (expect stop .identifier noParameter (t :: vs)).bind fun name ws _ =>
      (moreParameters stop ws).map fun (ps, closer) => (.ofToken name :: ps, closer)

/-- The step that a `for` without one has, at the place where it would stand. -/
def defaultStep (p : Position) : Expr Token :=
  .integer (.synthetic .numeral "1" p) (Int64.ofNat 1)

def step (us : List Token) : Attempt (Expr Token) [] us :=
  match us with
  | [] => .pure (defaultStep stop) []
  | t :: vs =>
    if t.kind = .comma then (expr stop .lowest vs).past t
    else .pure (defaultStep t.start) (t :: vs)

structure ForHeader where
  init : Assign Token
  limit : Expr Token
  step : Expr Token
  opener : Token

def forHeader (us : List Token) : Attempt ForHeader [] us :=
  (expect stop .identifier (.wanted .forLoop "loop variable after `for`") us).bind
    fun name vs _ =>
  (expect stop .assign (.wanted .forLoop ("`=` after `" ++ name.value ++ "`")) vs).bind
    fun _ vs _ =>
  (assignment stop name (.ofToken name) false vs).bind
    fun init vs _ =>
  (expect stop .comma (.wanted .forLoop "`,` after for initial value") vs).bind
    fun _ vs _ =>
  (expr stop .lowest vs).bind
    fun limit vs _ =>
  (step stop vs).bind
    fun step vs _ =>
  (expect stop .kwDo (.wanted .forLoop "`do` after for header") vs).map
    fun opener => ⟨init, limit, step, opener⟩

structure FunctionHeader where
  name : Token
  parameters : List (Name Token)
  opener : Token

def functionHeader (us : List Token) : Attempt FunctionHeader [] us :=
  (expect stop .identifier (.wanted .function "function name") us).bind
    fun name vs _ =>
  (expect stop .leftParen (.wanted .function ("`(` after `" ++ name.value ++ "`")) vs).bind
    fun _ vs _ =>
  (parameters stop vs).map fun (ps, closer) => ⟨name, ps, closer⟩

end LuaSyntax.Parse
